import Mathlib.Data.List.Nodup
import Synapse.Json.Indent

/-!
# Structs as tables of fields

`encoding/json` handles a struct through the list of its exported fields, each under the name
its tag gives. `Marshal` writes the fields in order as an object's members. `Unmarshal` sets,
for each member of an object, the first field whose name the member's key matches, exactly or
up to case folding, decoding the member into the value the field already holds; a key that
matches no field is skipped, and `null` leaves the whole struct as it was. A `StructField σ` is one
entry of that list for a struct `σ`: the field's Go type, name, getter and setter, and how
`Marshal` writes and `Unmarshal` reads a value of its type.

A table whose names read back as written and of which no name matches a later one reads its
own encoding back: decoding sets each field in turn, whatever the struct held before
(`decodeFields_encodeFields`). The field kinds of the config file each read back what they
wrote: strings made valid UTF-8, `int` in 64 bits, `bool`, `[]string` with `nil` kept apart
from empty, and nested structs by the same theorem one level down.
-/

namespace Synapse.Json

/-- One exported field of a struct `σ`, as `encoding/json` handles it. -/
structure StructField (σ : Type) where
  /-- The field's Go type. -/
  α : Type
  name : Bytes
  get : σ → α
  set : σ → α → σ
  /-- The tree `Marshal` writes for a value of the field. -/
  toValue : α → Value
  /-- What `Unmarshal` makes of a member's value, decoded into the field's old value. -/
  decode : α → Parsed → Option α

variable {σ : Type}

/-- What `Marshal` writes for a struct: an object of its fields, in order. -/
def encodeFields (T : List (StructField σ)) (s : σ) : Value :=
  .obj (T.map fun f => (f.name, f.toValue (f.get s)))

/-- How `Unmarshal` sets the member `key`: through the first field whose name `key` matches;
a key that matches none is skipped. -/
def setField (T : List (StructField σ)) (s : σ) (key : Bytes) (v : Parsed) : Option σ :=
  match T.find? fun f => keyIs f.name key with
  | some f => (f.decode (f.get s) v).map (f.set s)
  | none => some s

/-- `Unmarshal` into a struct that holds `init`. -/
def decodeFields (T : List (StructField σ)) (init : σ) : Parsed → Option σ :=
  decodeStruct (setField T) init

/-- The laws of a Go struct's fields, each its own storage: a field read after it is set
gives the value set, and setting a field leaves every field of another name as it was. -/
structure Lawful (T : List (StructField σ)) : Prop where
  get_set : ∀ f ∈ T, ∀ s x, f.get (f.set s x) = x
  get_set_of_ne : ∀ f ∈ T, ∀ g ∈ T, f.name ≠ g.name → ∀ s x, f.get (g.set s x) = f.get s

/-- The fields of a struct type, which keep the laws of fields. -/
structure Table (σ : Type) where
  fields : List (StructField σ)
  lawful : Lawful fields

/-! ## StructField kinds -/

/-- A `bool` field: `true` or `false` sets it, `null` leaves it. -/
def decodeBool (old : Bool) : Parsed → Option Bool
  | .bool b => some b
  | .null => some old
  | _ => none

/-- The elements of an array decoded into a slice's old elements; one past the old length
starts as the empty string. -/
def decodeElems (old : List Bytes) : List Parsed → Option (List Bytes)
  | [] => some []
  | x :: xs => do
    let e ← decodeString (old.headD []) x
    let es ← decodeElems old.tail xs
    pure (e :: es)

/-- A `[]string` field, `none` for a `nil` slice: `null` makes it `nil`, an array decodes
into its elements, and `[]` gives an empty slice that is not `nil`. -/
def decodeStringSlice (old : Option (List Bytes)) : Parsed → Option (Option (List Bytes))
  | .null => some none
  | .arr xs => (decodeElems (old.getD []) xs).map some
  | _ => none

/-- What `Marshal` writes for a `[]string`: `null` for `nil`. -/
def stringSliceValue : Option (List Bytes) → Value
  | none => .null
  | some l => .arr (l.map .str)

namespace StructField

/-- A `string` field. -/
def string (name : Bytes) (get : σ → Bytes) (set : σ → Bytes → σ) : StructField σ :=
  ⟨Bytes, name, get, set, .str, decodeString⟩

/-- An `int` field, 64 bits wide. -/
def int (name : Bytes) (get : σ → Int) (set : σ → Int → σ) : StructField σ :=
  ⟨Int, name, get, set, fun n => .num (Number.ofInt n), decodeInt64⟩

/-- A `bool` field. -/
def bool (name : Bytes) (get : σ → Bool) (set : σ → Bool → σ) : StructField σ :=
  ⟨Bool, name, get, set, .bool, decodeBool⟩

/-- A `[]string` field. -/
def stringSlice (name : Bytes) (get : σ → Option (List Bytes))
    (set : σ → Option (List Bytes) → σ) : StructField σ :=
  ⟨Option (List Bytes), name, get, set, stringSliceValue, decodeStringSlice⟩

/-- A field of struct type, itself a table of fields. -/
def struct {τ : Type} (name : Bytes) (T : Table τ) (get : σ → τ) (set : σ → τ → σ) :
    StructField σ :=
  ⟨τ, name, get, set, encodeFields T.fields, decodeFields T.fields⟩

/-- The field's value `a` is read back as `b`, whatever the field held before. -/
def ReadsBack (f : StructField σ) (a b : f.α) : Prop :=
  ∀ old, f.decode old (f.toValue a).toParsed = some b

theorem string_readsBack (name : Bytes) (get : σ → Bytes) (set : σ → Bytes → σ) (a : Bytes) :
    (string name get set).ReadsBack a (coerceUTF8 a) := fun _ =>
  unquote_escapeString a

theorem int_readsBack (name : Bytes) (get : σ → Int) (set : σ → Int → σ) {n : Int}
    (h : -2 ^ 63 ≤ n ∧ n < 2 ^ 63) : (int name get set).ReadsBack n n := fun _ =>
  parseInt64_intLiteral h.1 h.2

theorem bool_readsBack (name : Bytes) (get : σ → Bool) (set : σ → Bool → σ) (b : Bool) :
    (bool name get set).ReadsBack b b := fun _ => rfl

theorem decodeElems_toParsedElems (l : List Bytes) :
    ∀ old, decodeElems old (toParsedElems (l.map .str)) = some (l.map coerceUTF8) := by
  induction l with
  | nil => intro _; rfl
  | cons x l ih =>
    intro old
    simp only [List.map_cons, toParsedElems, Value.toParsed, decodeElems, decodeString,
      unquote_escapeString, ih]
    rfl

theorem stringSlice_readsBack (name : Bytes) (get : σ → Option (List Bytes))
    (set : σ → Option (List Bytes) → σ) (l : Option (List Bytes)) :
    (stringSlice name get set).ReadsBack l (l.map (List.map coerceUTF8)) := by
  intro old
  cases l with
  | none => rfl
  | some l =>
    show (decodeElems _ (toParsedElems (l.map .str))).map some = _
    rw [decodeElems_toParsedElems]
    rfl

end StructField

/-! ## Reading a table back -/

theorem keyIs_self (name : Bytes) : keyIs name name = true := by simp [keyIs]

/-- The member a field writes is set through that field: no earlier name matches it. -/
theorem find?_keyIs {T pre rest : List (StructField σ)} {f : StructField σ}
    (hd : (T.map StructField.name).Pairwise fun a b => keyIs a b = false)
    (hT : T = pre ++ f :: rest) :
    T.find? (fun g => keyIs g.name f.name) = some f := by
  subst hT
  have hpre : ∀ g ∈ pre, keyIs g.name f.name = false := fun g hg =>
    (List.pairwise_append.mp (List.pairwise_map.mp hd)).2.2 g hg f (List.mem_cons_self _ _)
  rw [List.find?_append, List.find?_eq_none.mpr (by simpa using hpre), Option.none_or,
    List.find?_cons_of_pos (p := fun g => keyIs g.name f.name) rest (keyIs_self f.name)]

section ReadBack

variable {T : List (StructField σ)}
  (hd : (T.map StructField.name).Pairwise fun a b => keyIs a b = false)
  (hp : ∀ f ∈ T, ∀ b ∈ f.name, htmlSafe b = true) {s back : σ}
  (hf : ∀ f ∈ T, f.ReadsBack (f.get s) (f.get back))
include hd hp hf

/-- The members written for the fields after `pre` set those fields in turn, over any struct. -/
theorem foldlM_setField {pre rest : List (StructField σ)} (hT : T = pre ++ rest) (acc : σ) :
    (toParsedMembers (rest.map fun f => (f.name, f.toValue (f.get s)))).foldlM
        (fun s kv => (unquote kv.1).bind fun key => setField T s key kv.2) acc =
      some (rest.foldl (fun acc f => f.set acc (f.get back)) acc) := by
  induction rest generalizing pre acc with
  | nil => rfl
  | cons f rest ih =>
    have hfT : f ∈ T := hT ▸ List.mem_append_right pre (List.mem_cons_self f rest)
    have hset : setField T acc f.name (f.toValue (f.get s)).toParsed =
        some (f.set acc (f.get back)) := by
      rw [setField, find?_keyIs hd hT]
      exact congrArg (Option.map (f.set acc)) (hf f hfT (f.get acc))
    simp only [List.map_cons, toParsedMembers, List.foldlM_cons, List.foldl_cons,
      unquote_escapeString_of_htmlSafe (hp f hfT), Option.some_bind, hset]
    exact @ih (pre ++ [f]) (by simp [hT]) _

/-- **A table reads its own encoding back**: when no name matches a later one and every field
reads back, decoding the struct's encoding into any struct sets every field in turn. -/
theorem decodeFields_encodeFields
    (hc : ∀ init, T.foldl (fun acc f => f.set acc (f.get back)) init = back) (init : σ) :
    decodeFields T init (encodeFields T s).toParsed = some back := by
  have := foldlM_setField hd hp hf (List.nil_append T).symm init
  simp only [List.map_map] at this
  rw [← hc init, ← this]
  rfl

end ReadBack

/-! ## What the members leave alone -/

mutual
/-- Whether some object in the tree has a member whose unquoted key satisfies `q`. -/
def Parsed.anyKey (q : Bytes → Bool) : Parsed → Bool
  | .arr xs => anyKeyElems q xs
  | .obj kvs => anyKeyMembers q kvs
  | _ => false

/-- Whether some element has such a member. -/
def anyKeyElems (q : Bytes → Bool) : List Parsed → Bool
  | [] => false
  | x :: xs => x.anyKey q || anyKeyElems q xs

/-- Whether some member has such a key, or holds such a member. -/
def anyKeyMembers (q : Bytes → Bool) : List (Bytes × Parsed) → Bool
  | [] => false
  | (k, v) :: kvs => (unquote k).any q || v.anyKey q || anyKeyMembers q kvs
end

theorem anyKey_obj_eq_false {q : Bytes → Bool} {kvs : List (Bytes × Parsed)}
    (h : (Parsed.obj kvs).anyKey q = false) :
    ∀ kv ∈ kvs, (∀ key ∈ unquote kv.1, q key = false) ∧ kv.2.anyKey q = false := by
  simp only [Parsed.anyKey] at h
  induction kvs with
  | nil => exact fun _ h => nomatch h
  | cons kv kvs ih =>
    simp only [anyKeyMembers, Bool.or_eq_false_iff] at h
    refine List.forall_mem_cons.mpr ⟨⟨fun key hkey => ?_, h.1.2⟩, ih h.2⟩
    simpa [Option.mem_def.mp hkey] using h.1.1

/-- Members that each keep `P` keep it over the whole object. -/
theorem foldlM_setField_induct {T : List (StructField σ)} {P : σ → Prop} :
    ∀ {kvs : List (Bytes × Parsed)}, (∀ kv ∈ kvs, ∀ key ∈ unquote kv.1, ∀ s s',
      setField T s key kv.2 = some s' → P s → P s') → ∀ {init s' : σ},
      kvs.foldlM (fun s kv => (unquote kv.1).bind fun key => setField T s key kv.2) init =
        some s' → P init → P s'
  | [], _, _, _, h, h0 => (Option.some.inj h) ▸ h0
  | kv :: kvs, hstep, init, s', h, h0 => by
    simp only [List.foldlM_cons, Option.bind_eq_bind, Option.bind_eq_some] at h
    obtain ⟨s1, ⟨key, hkey, h1⟩, h2⟩ := h
    exact foldlM_setField_induct (fun kv' hkv' => hstep kv' (List.mem_cons_of_mem _ hkv')) h2
      (hstep kv (List.mem_cons_self _ _) key hkey init s1 h1 h0)

/-- **Decoding a struct keeps what every member keeps.** -/
theorem decodeFields_induct {T : List (StructField σ)} {P : σ → Prop} {p : Parsed}
    (hstep : ∀ kvs, p = .obj kvs → ∀ kv ∈ kvs, ∀ key ∈ unquote kv.1, ∀ s s',
      setField T s key kv.2 = some s' → P s → P s')
    {init s' : σ} (h : decodeFields T init p = some s') (h0 : P init) : P s' := by
  cases p with
  | null => exact (Option.some.inj h) ▸ h0
  | obj kvs => exact foldlM_setField_induct (hstep kvs rfl) h h0
  | _ => cases h

/-- A member sets at most the field its key selects, to what that field's decoder returns
from the field's old value. -/
theorem setField_cases {T : List (StructField σ)} {s s' : σ} {key : Bytes} {v : Parsed}
    (h : setField T s key v = some s') :
    s' = s ∨ ∃ f ∈ T, ∃ x, f.decode (f.get s) v = some x ∧ s' = f.set s x := by
  unfold setField at h
  split at h
  · rename_i f hf
    obtain ⟨x, hx, rfl⟩ := Option.map_eq_some'.mp h
    exact .inr ⟨f, List.mem_of_find?_eq_some hf, x, hx, rfl⟩
  · exact .inl (Option.some.inj h).symm

/-- **Decoding a struct keeps an invariant that every field's decoder keeps**, whatever the
object holds. -/
theorem decodeFields_keeps {T : List (StructField σ)} {P : σ → Prop}
    (hT : ∀ f ∈ T, ∀ s v x, f.decode (f.get s) v = some x → P s → P (f.set s x))
    {init s' : σ} {p : Parsed} (h : decodeFields T init p = some s') (h0 : P init) : P s' :=
  decodeFields_induct (fun _ _ _ _ _ _ _ _ h' hs => by
    obtain rfl | ⟨f, hf, x, hx, rfl⟩ := setField_cases h'
    exacts [hs, hT f hf _ _ x hx hs]) h h0

section Keep

variable {T : List (StructField σ)} (hT : Lawful T)
include hT

/-- A member whose key does not match `f`'s name leaves `f` as it was. -/
theorem get_of_setField {f : StructField σ} (hf : f ∈ T) {key : Bytes}
    (hk : keyIs f.name key = false)
    {s s' : σ} {v : Parsed} (h : setField T s key v = some s') : f.get s' = f.get s := by
  unfold setField at h
  split at h
  · rename_i g hfind
    have hg : keyIs g.name key = true :=
      List.find?_some (p := fun f : StructField σ => keyIs f.name key) hfind
    obtain ⟨x, -, rfl⟩ := Option.map_eq_some'.mp h
    refine hT.get_set_of_ne f hf g (List.mem_of_find?_eq_some hfind) (fun he => ?_) s x
    rw [← he, hk] at hg
    cases hg
  · exact congrArg f.get (Option.some.inj h).symm

/-- A member of a struct field `F` whose value names no key of `g` leaves `g` inside `F` as
it was, when no two fields share a name. -/
theorem get_get_of_setField (hnd : (T.map StructField.name).Nodup) {τ : Type} {name : Bytes}
    {U : Table τ} {get : σ → τ} {set : σ → τ → σ} (hF : StructField.struct name U get set ∈ T)
    {g : StructField τ} (hg : g ∈ U.fields) {key : Bytes} {v : Parsed}
    (hk : ∀ kvs, v = .obj kvs → ∀ kv ∈ kvs, ∀ key ∈ unquote kv.1, keyIs g.name key = false)
    {s s' : σ} (h : setField T s key v = some s') : g.get (get s') = g.get (get s) := by
  unfold setField at h
  split at h
  · rename_i G hfind
    have hG := List.mem_of_find?_eq_some hfind
    obtain ⟨x, hx, rfl⟩ := Option.map_eq_some'.mp h
    by_cases hn : G.name = name
    · obtain rfl : G = StructField.struct name U get set := List.inj_on_of_nodup_map hnd hG hF hn
      have hset : get (set s x) = x := hT.get_set _ hF s x
      show g.get (get (set s x)) = _
      rw [hset]
      exact decodeFields_induct (fun kvs hv kv hkv key hkey _ _ h' h0 =>
        (get_of_setField U.lawful hg (hk kvs hv kv hkv key hkey) h').trans h0) hx rfl
    · have hget : get (G.set s x) = get s := hT.get_set_of_ne _ hF G hG (Ne.symm hn) s x
      rw [hget]
  · rw [Option.some.inj h]

end Keep

/-! ## Nesting -/

theorem depthMembers_le {l : List (Bytes × Value)} {n : Nat} (h : ∀ kv ∈ l, kv.2.depth ≤ n) :
    depthMembers l ≤ n := by
  induction l with
  | nil => exact Nat.zero_le n
  | cons kv l ih =>
    simp only [List.forall_mem_cons] at h
    exact Nat.max_le.mpr ⟨h.1, ih h.2⟩

theorem depth_encodeFields_le {T : List (StructField σ)} {s : σ} {n : Nat}
    (h : ∀ f ∈ T, (f.toValue (f.get s)).depth ≤ n) : (encodeFields T s).depth ≤ n + 1 := by
  simp only [encodeFields, Value.depth, Nat.add_le_add_iff_right]
  exact depthMembers_le (by simpa using h)

theorem depth_stringSliceValue (l : Option (List Bytes)) : (stringSliceValue l).depth ≤ 1 := by
  cases l with
  | none => exact Nat.zero_le 1
  | some l =>
    suffices depthElems (l.map .str) = 0 by simp [stringSliceValue, Value.depth, this]
    induction l with
    | nil => rfl
    | cons x l ih => simp [depthElems, ih, Value.depth]

end Synapse.Json
