import Synapse.Json.Utf8

/-!
# Peers from mDNS service entries (`processEntry`, `processServiceEntry`)

The discovery package turns a `zeroconf.ServiceEntry` into a `Peer` in two places: the
`MDNSDiscoverer`'s `processEntry` and the `processServiceEntry` of `DiscoverLocalPeers`. The
two are one function (`entryToPeer`) but for the test that picks the node id out of the TXT
strings. `processEntry` takes the first string with the byte prefix `node_id=` and trims the
prefix; `processServiceEntry` takes the first string that `splitNodeID` cuts in two with
`node_id` before the cut, and keeps what follows it.

`splitNodeID` walks the string's runes, not its bytes. A `=` is a byte below `0x80`, which the
walk reads as a rune of its own, and no other rune holds such a byte, valid or not: so the
walk cuts at the first `=` byte (`splitNodeID_eq`), the two tests agree on every string, and
the two functions on every entry.
-/

namespace Synapse.Discovery

/-- A `net.IP`, by its bytes. -/
abbrev IP := Bytes

/-- `zeroconf.ServiceEntry`: the fields the two functions read. -/
structure ServiceEntry where
  hostName : Bytes
  port : Int
  text : List Bytes
  ttl : UInt32
  addrIPv4 : List IP
  addrIPv6 : List IP

/-- `discovery.Peer`. -/
structure Peer where
  id : Bytes
  address : Bytes
  port : Int
  hostname : Bytes
  ttl : Int
  deriving DecidableEq

/-! ## `strings` -/

/-- `strings.HasPrefix(s, prefix)`. -/
def hasPrefix (s pre : Bytes) : Bool := pre.isPrefixOf s

/-- `strings.TrimPrefix(s, prefix)`. -/
def trimPrefix (s pre : Bytes) : Bytes := if hasPrefix s pre then s.drop pre.length else s

theorem hasPrefix_append (pre r : Bytes) : hasPrefix (pre ++ r) pre = true :=
  List.isPrefixOf_iff_prefix.mpr (List.prefix_append pre r)

theorem trimPrefix_append (pre r : Bytes) : trimPrefix (pre ++ r) pre = r := by
  rw [trimPrefix, if_pos (hasPrefix_append pre r), List.drop_left]

theorem eq_append_of_hasPrefix {s pre : Bytes} (h : hasPrefix s pre = true) :
    s = pre ++ trimPrefix s pre := by
  rw [trimPrefix, if_pos h]
  exact (List.prefix_iff_eq_append.mp (List.isPrefixOf_iff_prefix.mp h)).symm

/-! ## `splitNodeID` -/

/-- `splitNodeID(s)`. The loop `for i, c := range s` meets the runes of `s` at their byte
offsets `i`; at the first `'='` it returns `s[:i]` and `s[i+1:]`, and after the last rune the
empty slice. -/
def splitNodeID (s : Bytes) : List Bytes := go 0 (runes s)
where
  /-- The loop from byte offset `i`, over the runes left. -/
  go (i : Nat) : List GoRune → List Bytes
    | [] => []
    | c :: cs => if c = .ascii 0x3D then [s.take i, s.drop (i + 1)] else go (i + c.bytes.length) cs

/-- The bytes before the first `=` of `s` and those after it, as `strings.Cut(s, "=")` would
cut them; `none` without a `=`. -/
def cutEq : Bytes → Option (Bytes × Bytes)
  | [] => none
  | b :: t => if b = 0x3D then some ([], t) else (cutEq t).map fun q => (b :: q.1, q.2)

theorem cutEq_sound : ∀ {s a b : Bytes}, cutEq s = some (a, b) → s = a ++ 0x3D :: b
  | [], _, _, h => nomatch h
  | c :: t, a, b, h => by
    unfold cutEq at h
    split_ifs at h with hc
    · cases h
      rw [hc]
      rfl
    · obtain ⟨⟨a', b'⟩, ht, he⟩ := Option.map_eq_some'.mp h
      cases he
      rw [cutEq_sound ht]
      rfl

theorem cutEq_append {x : Bytes} (hx : 0x3D ∉ x) (y : Bytes) :
    cutEq (x ++ y) = (cutEq y).map fun q => (x ++ q.1, q.2) := by
  induction x with
  | nil => simp
  | cons c x ih =>
    rw [List.mem_cons, not_or] at hx
    rw [List.cons_append, cutEq, if_neg (Ne.symm hx.1), ih hx.2, Option.map_map]
    rfl

/-- A byte below `0x80` of a rune of the walk is that whole rune: an ASCII rune. -/
theorem eq_ascii_of_mem_bytes {s : Bytes} {r : GoRune} {x : UInt8} (hr : r ∈ runes s)
    (hx : x ∈ r.bytes) (hlt : x < 0x80) : r = .ascii x := by
  obtain ⟨b, t, rfl⟩ := exists_decodeRune_of_mem_runes hr
  rcases decodeRune_fst_cases b t with ⟨he, -⟩ | ⟨bs, he⟩ | he <;> rw [he] at hx ⊢
  · rw [GoRune.bytes_ascii, List.mem_singleton] at hx
    rw [hx]
  · have := decodeRune_multi_high he x hx
    rw [byte_le_iff] at this
    rw [byte_lt_iff] at hlt
    omega
  · rw [GoRune.bytes_bad, List.mem_singleton] at hx
    subst hx
    have : (decodeRune x t).1 = .ascii x := by simp [decodeRune, hlt]
    rw [this] at he
    cases he

/-- The loop from the offset of `p`, over runes of `s` that spell what follows `p`. -/
theorem splitNodeID_go (s : Bytes) (rs : List GoRune) (hrs : ∀ r ∈ rs, r ∈ runes s) :
    ∀ p, s = p ++ rs.flatMap GoRune.bytes →
      splitNodeID.go s p.length rs =
        ((cutEq (rs.flatMap GoRune.bytes)).map fun q => [p ++ q.1, q.2]).getD [] := by
  induction rs with
  | nil => intro p _; rfl
  | cons c cs ih =>
    intro p hs
    rw [splitNodeID.go, List.flatMap_cons]
    split_ifs with hc
    · subst hc
      simp [cutEq, hs]
    · have hnot : 0x3D ∉ c.bytes := fun h =>
        hc (eq_ascii_of_mem_bytes (hrs c (List.mem_cons_self _ _)) h (by decide))
      rw [cutEq_append hnot, Option.map_map, ← List.length_append,
        ih (fun r hr => hrs r (List.mem_cons_of_mem _ hr)) (p ++ c.bytes) (by rw [hs, List.append_assoc, List.flatMap_cons])]
      simp only [Function.comp_def, List.append_assoc]

/-- **`splitNodeID` cuts at the first `=` byte**, whatever the string, valid UTF-8 or not:
the rune walk stops where a byte walk would. -/
theorem splitNodeID_eq (s : Bytes) :
    splitNodeID s = ((cutEq s).map fun q => [q.1, q.2]).getD [] := by
  have h := splitNodeID_go s (runes s) (fun _ hr => hr) [] (flatMap_bytes_runes s).symm
  rwa [flatMap_bytes_runes, List.length_nil] at h

example : splitNodeID [0xFF, 0x3D, 0xC3, 0xA9, 0x3D] = [[0xFF], [0xC3, 0xA9, 0x3D]] := by decide

/-- `splitNodeID(s)` is `["node_id", v]` exactly when `s` starts with `node_id=`, and then `v`
is the rest of `s`. -/
theorem splitNodeID_eq_node_id_iff (s v : Bytes) :
    splitNodeID s = [ascii "node_id", v] ↔
      hasPrefix s (ascii "node_id=") = true ∧ v = trimPrefix s (ascii "node_id=") := by
  have hcat (r : Bytes) : ascii "node_id=" ++ r = ascii "node_id" ++ 0x3D :: r := rfl
  rw [splitNodeID_eq]
  constructor
  · intro h
    cases hc : cutEq s with
    | none => simp [hc] at h
    | some q =>
      simp only [hc, Option.map_some', Option.getD_some, List.cons.injEq, and_true] at h
      rw [cutEq_sound hc, h.1, h.2, ← hcat]
      exact ⟨hasPrefix_append _ _, (trimPrefix_append _ _).symm⟩
  · rintro ⟨hp, rfl⟩
    obtain ⟨r, rfl⟩ : ∃ r, s = ascii "node_id=" ++ r := ⟨_, eq_append_of_hasPrefix hp⟩
    rw [trimPrefix_append, hcat, cutEq_append (by decide)]
    simp [cutEq]

/-! ## The two functions

`IP.String()` is taken as given: both functions call the same one. -/

section Entry

variable (ipString : IP → Bytes)

/-- What both functions make of an entry, given the test each applies to a TXT string
(`nodeIDOf`: the id the string holds, if the function takes it). No address, no peer; else
the first IPv4 address or the first IPv6 one, the id of the first string the test takes
(empty when none does), and the TTL in nanoseconds, which a `uint32` of seconds keeps
within `int64`. -/
def entryToPeer (nodeIDOf : Bytes → Option Bytes) (entry : ServiceEntry) : Option Peer :=
  if entry.addrIPv4.length = 0 ∧ entry.addrIPv6.length = 0 then none
  else
    let address :=
      if 0 < entry.addrIPv4.length then ipString (entry.addrIPv4.headD [])
      else ipString (entry.addrIPv6.headD [])
    let nodeID := (entry.text.findSome? nodeIDOf).getD []
    some ⟨nodeID, address, entry.port, entry.hostName, (entry.ttl.toNat : Int) * 10 ^ 9⟩

/-- The test of `processEntry`: `strings.HasPrefix(txt, "node_id=")`, and the id is
`strings.TrimPrefix(txt, "node_id=")`. -/
def mdnsNodeID (txt : Bytes) : Option Bytes :=
  if hasPrefix txt (ascii "node_id=") then some (trimPrefix txt (ascii "node_id=")) else none

/-- The test of `processServiceEntry`: `splitNodeID(txt)` has two parts and the first is
`node_id`; the id is the second. -/
def bootstrapNodeID (txt : Bytes) : Option Bytes :=
  match splitNodeID txt with
  | [k, v] => if k = ascii "node_id" then some v else none
  | _ => none

/-- `MDNSDiscoverer.processEntry`; the discoverer's own fields take no part. -/
def processEntry (entry : ServiceEntry) : Option Peer := entryToPeer ipString mdnsNodeID entry

/-- `processServiceEntry`. -/
def processServiceEntry (entry : ServiceEntry) : Option Peer :=
  entryToPeer ipString bootstrapNodeID entry

end Entry

theorem mdnsNodeID_eq_some (txt v : Bytes) :
    mdnsNodeID txt = some v ↔
      hasPrefix txt (ascii "node_id=") = true ∧ v = trimPrefix txt (ascii "node_id=") := by
  unfold mdnsNodeID
  split_ifs with h <;> simp [h, eq_comm]

theorem bootstrapNodeID_eq_some (txt v : Bytes) :
    bootstrapNodeID txt = some v ↔ splitNodeID txt = [ascii "node_id", v] := by
  unfold bootstrapNodeID
  split
  · next _ k v' hs =>
    rw [hs]
    split_ifs with h <;> simp [h]
  · simp_all

/-- The two tests take the same strings and read the same id off them. -/
theorem bootstrapNodeID_eq_mdnsNodeID (txt : Bytes) : bootstrapNodeID txt = mdnsNodeID txt :=
  Option.ext fun v => by
    rw [Option.mem_def, Option.mem_def, bootstrapNodeID_eq_some, splitNodeID_eq_node_id_iff,
      mdnsNodeID_eq_some]

/-- **`processEntry` and `processServiceEntry` return the same on every entry** — no peer, or
peers with the same id, address, port, host name and TTL — however `IP.String()` writes an
address; and `splitNodeID(s)` is `["node_id", v]` exactly when `s` starts with `node_id=`, with
`v` the string after it. -/
theorem processEntry_agrees :
    (∀ (ipString : IP → Bytes) (entry : ServiceEntry),
      processEntry ipString entry = processServiceEntry ipString entry) ∧
    ∀ s v : Bytes, splitNodeID s = [ascii "node_id", v] ↔
      hasPrefix s (ascii "node_id=") = true ∧ v = trimPrefix s (ascii "node_id=") := by
  refine ⟨fun ipString entry => ?_, splitNodeID_eq_node_id_iff⟩
  rw [processEntry, processServiceEntry, funext bootstrapNodeID_eq_mdnsNodeID]

end Synapse.Discovery
