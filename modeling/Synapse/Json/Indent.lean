import Synapse.Json.RoundTrip

/-!
# What `json.MarshalIndent` writes, the scanner reads

`MarshalIndent(v, prefix, indent)` is `Marshal` followed by `Indent`, which lays the compact
text out again: after an opening bracket that is not closed at once, and after each comma
between elements or members, a newline, the prefix and the indent once per open container;
the same before a closing bracket, one level out; a space after each colon; empty containers
and everything inside strings unchanged. `Value.encodeIndent` writes that layout from the
tree, with the empty prefix and the two-space indent `Config.Save` asks for.

The scanner skips whitespace before every value, key and separator, so it reads the indented
text as it reads the compact one (`parseText_marshalIndent`). The proof is an induction on the
scanner's fuel (`ReadsIndent`): each step follows the compact proof construct by construct, with
`skipWs_append` passing over each indentation.
-/

namespace Synapse.Json

/-- `appendNewline` with an empty prefix and an indent of two spaces. -/
def newline (depth : Nat) : Bytes := 0x0A :: List.replicate (2 * depth) 0x20

mutual
/-- The indented encoding of a value opened at nesting `depth`. -/
def Value.encodeIndent (depth : Nat) : Value → Bytes
  | .null => ascii "null"
  | .bool true => ascii "true"
  | .bool false => ascii "false"
  | .num n => n.lit
  | .str s => appendString s
  | .arr [] => ascii "[]"
  | .arr (x :: xs) =>
    0x5B :: newline (depth + 1) ++ x.encodeIndent (depth + 1) ++ encodeIndentElems (depth + 1) xs ++
      newline depth ++ [0x5D]
  | .obj [] => ascii "{}"
  | .obj ((k, v) :: kvs) =>
    0x7B :: newline (depth + 1) ++ appendString k ++ 0x3A :: 0x20 :: v.encodeIndent (depth + 1) ++
      encodeIndentMembers (depth + 1) kvs ++ newline depth ++ [0x7D]

/-- The elements after the first, each after a comma and a newline. -/
def encodeIndentElems (depth : Nat) : List Value → Bytes
  | [] => []
  | x :: xs => 0x2C :: newline depth ++ x.encodeIndent depth ++ encodeIndentElems depth xs

/-- The members after the first, each after a comma and a newline. -/
def encodeIndentMembers (depth : Nat) : List (Bytes × Value) → Bytes
  | [] => []
  | (k, v) :: kvs =>
    0x2C :: newline depth ++ appendString k ++ 0x3A :: 0x20 :: v.encodeIndent depth ++
      encodeIndentMembers depth kvs
end

/-- `json.MarshalIndent(v, "", "  ")`. -/
def Value.marshalIndent (v : Value) : Bytes := v.encodeIndent 0

/-! ## Whitespace -/

theorem isSpace_newline (depth : Nat) : ∀ b ∈ newline depth, isSpace b = true := by
  simp only [newline, List.mem_cons, List.mem_replicate]
  rintro b (rfl | ⟨-, rfl⟩) <;> decide

theorem skipWs_append {ws : Bytes} (h : ∀ b ∈ ws, isSpace b = true) (s : Bytes) :
    skipWs (ws ++ s) = skipWs s := by
  induction ws with
  | nil => rfl
  | cons b t ih =>
    rw [List.forall_mem_cons] at h
    simp [skipWs, h.1, ih h.2]

theorem parseValue_ws {ws : Bytes} (h : ∀ b ∈ ws, isSpace b = true) (fuel depth : Nat) (s : Bytes) :
    parseValue fuel depth (ws ++ s) = parseValue fuel depth s := by
  cases fuel with
  | zero => rfl
  | succ n => rw [parseValue, parseValue, skipWs_append h]

theorem parseValue_cons_space {b : UInt8} (h : isSpace b = true) (fuel depth : Nat) (s : Bytes) :
    parseValue fuel depth (b :: s) = parseValue fuel depth s :=
  parseValue_ws (List.forall_mem_singleton.mpr h) fuel depth s

theorem numEnd_ws {ws : Bytes} (h : ∀ b ∈ ws, isSpace b = true) {c : UInt8}
    (hc : isNumberByte c = false)
    (t : Bytes) : NumEnd (ws ++ c :: t) := by
  cases ws with
  | nil => exact numEnd_of_head hc
  | cons b _ => exact numEnd_of_head (isNumberByte_of_isSpace (h b (List.mem_cons_self _ _)))

/-- An indented encoding starts with the byte the compact one does. -/
theorem encodeIndent_head (v : Value) (depth : Nat) :
    ∃ b t, v.encodeIndent depth = b :: t ∧ isSpace b = false ∧ b ≠ 0x5D ∧ b ≠ 0x7D := by
  cases v with
  | null => exact encode_head .null
  | bool b => cases b <;> exact ⟨_, _, rfl, by decide, by decide, by decide⟩
  | num n => exact encode_head (.num n)
  | str s => exact encode_head (.str s)
  | arr xs => cases xs <;> exact ⟨_, _, rfl, by decide, by decide, by decide⟩
  | obj kvs => cases kvs <;> exact ⟨_, _, rfl, by decide, by decide, by decide⟩

/-! ## The scanner reads an indented encoding back -/

/-- With `fuel` to spend, the scanner reads back an indented value, the elements of an array
after `[`, and the members of an object after `{`. -/
structure ReadsIndent (fuel : Nat) : Prop where
  value : ∀ (v : Value) (d depth : Nat) (rest : Bytes), (v.encodeIndent d).length ≤ fuel →
    depth + v.depth ≤ maxNestingDepth → NumEnd rest →
    parseValue fuel depth (v.encodeIndent d ++ rest) = some (v.toParsed, rest)
  elems : ∀ (x : Value) (xs : List Value) (d depth : Nat) (acc : List Parsed) (ws0 ws : Bytes),
    (∀ b ∈ ws0, isSpace b = true) → (∀ b ∈ ws, isSpace b = true) → ∀ rest : Bytes,
    (ws0 ++ x.encodeIndent d ++ encodeIndentElems d xs).length < fuel →
    depth + max x.depth (depthElems xs) ≤ maxNestingDepth →
    parseElems fuel depth acc
        (ws0 ++ x.encodeIndent d ++ encodeIndentElems d xs ++ ws ++ 0x5D :: rest) =
      some (.arr (acc ++ x.toParsed :: toParsedElems xs), rest)
  members : ∀ (k : Bytes) (v : Value) (kvs : List (Bytes × Value)) (d depth : Nat)
    (acc : List (Bytes × Parsed)) (ws0 ws : Bytes),
    (∀ b ∈ ws0, isSpace b = true) → (∀ b ∈ ws, isSpace b = true) → ∀ rest : Bytes,
    (ws0 ++ appendString k ++ 0x3A :: 0x20 :: v.encodeIndent d ++
      encodeIndentMembers d kvs).length < fuel →
    depth + max v.depth (depthMembers kvs) ≤ maxNestingDepth →
    parseMembers fuel depth acc (ws0 ++ appendString k ++ 0x3A :: 0x20 :: v.encodeIndent d ++
        encodeIndentMembers d kvs ++ ws ++ 0x7D :: rest) =
      some (.obj (acc ++ (escapeString k, v.toParsed) :: toParsedMembers kvs), rest)

theorem readsIndent_zero : ReadsIndent 0 where
  value v d _ _ hf _ _ := by
    obtain ⟨b, t, hx, -⟩ := encodeIndent_head v d
    rw [hx] at hf
    exact absurd hf (Nat.not_succ_le_zero _)
  elems _ _ _ _ _ _ _ _ _ _ hf _ := absurd hf (Nat.not_lt_zero _)
  members _ _ _ _ _ _ _ _ _ _ _ hf _ := absurd hf (Nat.not_lt_zero _)

section Step

variable {n : Nat} (ih : ReadsIndent n)
include ih

/-- A value: a scalar or an empty container as the compact encoding reads, a container by
its elements or members one level in. -/
theorem ReadsIndent.value_succ (v : Value) (d depth : Nat) (rest : Bytes)
    (hf : (v.encodeIndent d).length ≤ n + 1) (hd : depth + v.depth ≤ maxNestingDepth)
    (hr : NumEnd rest) :
    parseValue (n + 1) depth (v.encodeIndent d ++ rest) = some (v.toParsed, rest) := by
  match v with
  | .null => exact parseValue_encode .null _ depth rest hf hd hr
  | .bool true => exact parseValue_encode (.bool true) _ depth rest hf hd hr
  | .bool false => exact parseValue_encode (.bool false) _ depth rest hf hd hr
  | .num m => exact parseValue_encode (.num m) _ depth rest hf hd hr
  | .str s => exact parseValue_encode (.str s) _ depth rest hf hd hr
  | .arr [] => exact parseValue_encode (.arr []) _ depth rest hf hd hr
  | .obj [] => exact parseValue_encode (.obj []) _ depth rest hf hd hr
  | .arr (x :: xs) =>
    have hlen : (newline (d + 1) ++ x.encodeIndent (d + 1) ++
        encodeIndentElems (d + 1) xs).length < n := by
      simp only [Value.encodeIndent, List.length_append, List.length_cons,
        List.length_singleton] at hf ⊢
      omega
    have hdepth : depth < maxNestingDepth := by simp only [Value.depth] at hd; omega
    have hd' : depth + 1 + max x.depth (depthElems xs) ≤ maxNestingDepth := by
      simp only [Value.depth, depthElems] at hd; omega
    have := ih.elems x xs (d + 1) (depth + 1) [] _ _ (isSpace_newline _) (isSpace_newline d) rest
      hlen hd'
    simp only [List.append_assoc, List.cons_append, List.singleton_append] at this
    simp only [Value.encodeIndent, List.cons_append, List.append_assoc, List.singleton_append,
      List.nil_append]
    rw [parseValue, skipWs_cons (by decide)]
    dsimp only
    rw [if_neg (by decide), if_pos rfl, if_pos hdepth, this]
    rfl
  | .obj ((k, w) :: kvs) =>
    have hlen : (newline (d + 1) ++ appendString k ++ 0x3A :: 0x20 :: w.encodeIndent (d + 1) ++
        encodeIndentMembers (d + 1) kvs).length < n := by
      simp only [Value.encodeIndent, List.length_append, List.length_cons,
        List.length_singleton] at hf ⊢
      omega
    have hdepth : depth < maxNestingDepth := by simp only [Value.depth] at hd; omega
    have hd' : depth + 1 + max w.depth (depthMembers kvs) ≤ maxNestingDepth := by
      simp only [Value.depth, depthMembers] at hd; omega
    have := ih.members k w kvs (d + 1) (depth + 1) [] _ _ (isSpace_newline _) (isSpace_newline d)
      rest hlen hd'
    simp only [List.append_assoc, List.cons_append, List.singleton_append] at this
    simp only [Value.encodeIndent, List.cons_append, List.append_assoc, List.singleton_append,
      List.nil_append]
    rw [parseValue, skipWs_cons (by decide)]
    dsimp only
    rw [if_pos rfl, if_pos hdepth, this]
    rfl

/-- The elements of an array after `[`: the first after whitespace, then each after a comma,
and whitespace before `]`. -/
theorem ReadsIndent.elems_succ (x : Value) (xs : List Value) (d depth : Nat)
    (acc : List Parsed) {ws0 ws : Bytes} (h0 : ∀ b ∈ ws0, isSpace b = true)
    (h1 : ∀ b ∈ ws, isSpace b = true) (rest : Bytes)
    (hf : (ws0 ++ x.encodeIndent d ++ encodeIndentElems d xs).length < n + 1)
    (hd : depth + max x.depth (depthElems xs) ≤ maxNestingDepth) :
    parseElems (n + 1) depth acc
        (ws0 ++ x.encodeIndent d ++ encodeIndentElems d xs ++ ws ++ 0x5D :: rest) =
      some (.arr (acc ++ x.toParsed :: toParsedElems xs), rest) := by
  obtain ⟨b, t, hx, hsp, hb, -⟩ := encodeIndent_head x d
  have hx' : (x.encodeIndent d).length ≤ n := by simp only [List.length_append] at hf; omega
  simp only [List.append_assoc]
  have hnot : ¬(acc.isEmpty ∧
      (skipWs (ws0 ++ (x.encodeIndent d ++
        (encodeIndentElems d xs ++ (ws ++ 0x5D :: rest))))).head? = some 0x5D) := by
    rw [skipWs_append h0, hx, List.cons_append, skipWs_cons hsp]
    simp [hb]
  rw [parseElems, if_neg hnot, parseValue_ws h0]
  match xs with
  | [] =>
    rw [encodeIndentElems, List.nil_append, ih.value x d depth (ws ++ 0x5D :: rest) hx'
      (by simp only [depthElems] at hd; omega) (numEnd_ws h1 (by decide) rest)]
    simp [skipWs_append h1, skipWs_cons (show isSpace 0x5D = false by decide), toParsedElems]
  | y :: ys =>
    have := ih.elems y ys d depth (acc ++ [x.toParsed]) _ _ (isSpace_newline d) h1 rest
      (by simp only [encodeIndentElems, List.length_append, List.length_cons] at hf ⊢; omega)
      (by simp only [depthElems] at hd; omega)
    simp only [List.append_assoc] at this
    simp only [encodeIndentElems, List.cons_append, List.append_assoc]
    rw [ih.value x d depth _ hx' (by simp only [depthElems] at hd; omega)
      (numEnd_of_head (by decide))]
    dsimp only
    rw [skipWs_cons (by decide)]
    dsimp only
    rw [if_pos rfl, this]
    simp [toParsedElems]

/-- The members of an object after `{`: the first after whitespace, then each after a comma,
and whitespace before `}`. -/
theorem ReadsIndent.members_succ (k : Bytes) (v : Value) (kvs : List (Bytes × Value))
    (d depth : Nat) (acc : List (Bytes × Parsed)) {ws0 ws : Bytes}
    (h0 : ∀ b ∈ ws0, isSpace b = true) (h1 : ∀ b ∈ ws, isSpace b = true) (rest : Bytes)
    (hf : (ws0 ++ appendString k ++ 0x3A :: 0x20 :: v.encodeIndent d ++
      encodeIndentMembers d kvs).length < n + 1)
    (hd : depth + max v.depth (depthMembers kvs) ≤ maxNestingDepth) :
    parseMembers (n + 1) depth acc (ws0 ++ appendString k ++ 0x3A :: 0x20 :: v.encodeIndent d ++
        encodeIndentMembers d kvs ++ ws ++ 0x7D :: rest) =
      some (.obj (acc ++ (escapeString k, v.toParsed) :: toParsedMembers kvs), rest) := by
  have hv : (v.encodeIndent d).length ≤ n := by
    simp only [List.length_append, List.length_cons] at hf; omega
  simp only [appendString, List.cons_append, List.append_assoc, List.singleton_append,
    List.nil_append]
  rw [parseMembers, skipWs_append h0, skipWs_cons (by decide)]
  dsimp only
  rw [if_neg (fun h => absurd h.1 (by decide)), if_pos rfl, lexString_escapeString]
  dsimp only
  simp only [skipWs_cons (show isSpace 0x3A = false by decide)]
  rw [parseValue_cons_space (show isSpace 0x20 = true by decide)]
  match kvs with
  | [] =>
    rw [encodeIndentMembers, List.nil_append, ih.value v d depth (ws ++ 0x7D :: rest) hv
      (by simp only [depthMembers] at hd; omega) (numEnd_ws h1 (by decide) rest)]
    simp [skipWs_append h1, skipWs_cons (show isSpace 0x7D = false by decide), toParsedMembers]
  | (k', w) :: kvs' =>
    have := ih.members k' w kvs' d depth (acc ++ [(escapeString k, v.toParsed)]) _ _
      (isSpace_newline d) h1 rest
      (by simp only [encodeIndentMembers, List.length_append, List.length_cons] at hf ⊢; omega)
      (by simp only [depthMembers] at hd; omega)
    simp only [List.cons_append, List.append_assoc, List.singleton_append] at this
    simp only [encodeIndentMembers, List.cons_append, List.append_assoc]
    rw [ih.value v d depth _ hv (by simp only [depthMembers] at hd; omega)
      (numEnd_of_head (by decide))]
    dsimp only
    rw [skipWs_cons (by decide)]
    dsimp only
    rw [if_pos rfl, this]
    simp [toParsedMembers]

end Step

/-- **The scanner reads indented encodings back, with any fuel.** -/
theorem readsIndent : ∀ fuel, ReadsIndent fuel
  | 0 => readsIndent_zero
  | n + 1 => have ih := readsIndent n
    ⟨ih.value_succ, fun x xs d depth acc _ _ h0 h1 => ih.elems_succ x xs d depth acc h0 h1,
      fun k v kvs d depth acc _ _ h0 h1 => ih.members_succ k v kvs d depth acc h0 h1⟩

/-- **The scanner reads back what `json.MarshalIndent` wrote**, and any whitespace after it,
as long as the containers nest no deeper than `maxNestingDepth`. -/
theorem parseText_marshalIndent (v : Value) (hd : v.depth ≤ maxNestingDepth) {ws : Bytes}
    (hws : ∀ b ∈ ws, isSpace b = true) : parseText (v.marshalIndent ++ ws) = some v.toParsed := by
  have hr : NumEnd ws := by
    cases ws with
    | nil => exact numEnd_nil
    | cons b t => exact numEnd_of_head (isNumberByte_of_isSpace (hws b (List.mem_cons_self b t)))
  rw [parseText, Value.marshalIndent, (readsIndent _).value v 0 0 ws (by simp; omega)
    (by simpa using hd) hr]
  simp [skipWs_of_isSpace hws]

end Synapse.Json
