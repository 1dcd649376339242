import Synapse.Json.Valid
import Synapse.Settings.Config

/-!
# Load, Save, Load

`Load` returns a config whose strings are all valid UTF-8, however the file is written:
`json.Unmarshal` writes every string it reads as valid UTF-8, and every string the file does
not set is a default, ASCII but for the data directory, which comes from the home directory.
Every `int` it returns fits in 64 bits, as `strconv.ParseInt` checks. Such a config is
`Settled`, and the settled configs are exactly those that `Save` then `Load` give back as
they are (`load_save_eq_iff`). So one `Load` settles a file: saving the config it returned
and loading it again gives the same config (`load_save_load`).
-/

namespace Synapse.Settings

open Synapse.Json

/-- An `int` within 64 bits. -/
def Fits64 (n : Int) : Prop := -2 ^ 63 ≤ n ∧ n < 2 ^ 63

instance : DecidablePred Fits64 := fun n => inferInstanceAs (Decidable (-2 ^ 63 ≤ n ∧ n < 2 ^ 63))

/-! ## Settled configs -/

/-- A `NodeConfig` whose strings are valid UTF-8. -/
def NodeConfig.Settled (n : NodeConfig) : Prop := ValidUTF8 n.id ∧ ValidUTF8 n.name

/-- A `P2PConfig` whose `int`s fit and whose bootstrap peers are valid UTF-8. -/
def P2PConfig.Settled (p : P2PConfig) : Prop :=
  Fits64 p.listenPort ∧ (∀ s ∈ p.bootstrapPeers.getD [], ValidUTF8 s) ∧ Fits64 p.maxPeers

/-- A `StorageConfig` whose data directory is valid UTF-8 and whose size limit fits. -/
def StorageConfig.Settled (s : StorageConfig) : Prop := ValidUTF8 s.dataDir ∧ Fits64 s.maxSizeGB

/-- An `AIConfig` whose endpoint is valid UTF-8 and whose `int`s fit. -/
def AIConfig.Settled (a : AIConfig) : Prop :=
  ValidUTF8 a.endpoint ∧ Fits64 a.timeout ∧ Fits64 a.maxRetries

/-- A `LoggingConfig` whose strings are valid UTF-8. -/
def LoggingConfig.Settled (l : LoggingConfig) : Prop :=
  ValidUTF8 l.level ∧ ValidUTF8 l.format ∧ ValidUTF8 l.outputFile

instance : DecidablePred NodeConfig.Settled := fun n =>
  inferInstanceAs (Decidable (ValidUTF8 n.id ∧ ValidUTF8 n.name))

instance : DecidablePred P2PConfig.Settled := fun p =>
  inferInstanceAs (Decidable (Fits64 p.listenPort ∧ (∀ s ∈ p.bootstrapPeers.getD [], ValidUTF8 s) ∧
    Fits64 p.maxPeers))

instance : DecidablePred StorageConfig.Settled := fun s =>
  inferInstanceAs (Decidable (ValidUTF8 s.dataDir ∧ Fits64 s.maxSizeGB))

instance : DecidablePred AIConfig.Settled := fun a =>
  inferInstanceAs (Decidable (ValidUTF8 a.endpoint ∧ Fits64 a.timeout ∧ Fits64 a.maxRetries))

instance : DecidablePred LoggingConfig.Settled := fun l =>
  inferInstanceAs (Decidable (ValidUTF8 l.level ∧ ValidUTF8 l.format ∧ ValidUTF8 l.outputFile))

/-- A config whose every section is settled. -/
structure Config.Settled (c : Config) : Prop where
  node : c.node.Settled
  p2p : c.p2p.Settled
  storage : c.storage.Settled
  ai : c.ai.Settled
  logging : c.logging.Settled

instance : DecidablePred Config.Settled := fun c =>
  decidable_of_iff (c.node.Settled ∧ c.p2p.Settled ∧ c.storage.Settled ∧ c.ai.Settled ∧
      c.logging.Settled)
    ⟨fun ⟨a, b, d, e, f⟩ => ⟨a, b, d, e, f⟩, fun ⟨a, b, d, e, f⟩ => ⟨a, b, d, e, f⟩⟩

theorem Config.Settled.intsFit {c : Config} (h : c.Settled) : c.IntsFit := by
  simp only [Config.IntsFit, List.forall_mem_cons, List.not_mem_nil, false_implies,
    implies_true, and_true]
  exact ⟨h.p2p.1, h.p2p.2.2, h.storage.2, h.ai.2.1, h.ai.2.2⟩

/-- A settled config reads back as itself. -/
theorem Config.Settled.received_eq {c : Config} (h : c.Settled) : c.received = c := by
  obtain ⟨⟨n1, n2⟩, ⟨-, hp, -⟩, ⟨s, -⟩, ⟨a, -⟩, ⟨l1, l2, l3⟩⟩ := h
  have hpeers : c.p2p.bootstrapPeers.map (List.map coerceUTF8) = c.p2p.bootstrapPeers := by
    cases hb : c.p2p.bootstrapPeers with
    | none => rfl
    | some l =>
      rw [hb] at hp
      exact congrArg some ((List.map_congr_left fun s hs => coerceUTF8_of_validUTF8 (hp s hs)).trans
        (List.map_id l))
  simp only [Config.received, NodeConfig.received, P2PConfig.received, StorageConfig.received,
    AIConfig.received, LoggingConfig.received, coerceUTF8_of_validUTF8, n1, n2, s, a, l1, l2, l3,
    hpeers]

/-- What a config reads back as is settled. -/
theorem Config.settled_received {c : Config} (hc : c.IntsFit) : c.received.Settled := by
  simp only [Config.IntsFit, List.forall_mem_cons, List.not_mem_nil, false_implies,
    implies_true, and_true] at hc
  refine ⟨⟨validUTF8_coerceUTF8 _, validUTF8_coerceUTF8 _⟩, ⟨hc.1, fun s hs => ?_, hc.2.1⟩,
    ⟨validUTF8_coerceUTF8 _, hc.2.2.1⟩, ⟨validUTF8_coerceUTF8 _, hc.2.2.2⟩,
    ⟨validUTF8_coerceUTF8 _, validUTF8_coerceUTF8 _, validUTF8_coerceUTF8 _⟩⟩
  cases hb : c.p2p.bootstrapPeers with
  | none => simp [Config.received, P2PConfig.received, hb] at hs
  | some l =>
    simp only [Config.received, P2PConfig.received, hb, Option.map_some', Option.getD_some,
      List.mem_map] at hs
    obtain ⟨t, -, rfl⟩ := hs
    exact validUTF8_coerceUTF8 t

/-! ## What each decoder keeps -/

theorem validUTF8_of_decodeString {old x : Bytes} {v : Parsed} (h : decodeString old v = some x)
    (hold : ValidUTF8 old) : ValidUTF8 x := by
  cases v with
  | str raw => exact validUTF8_unquote h
  | null => exact Option.some.inj h ▸ hold
  | _ => cases h

theorem fits64_of_decodeInt64 {old x : Int} {v : Parsed} (h : decodeInt64 old v = some x)
    (hold : Fits64 old) : Fits64 x := by
  cases v with
  | num n =>
    simp only [decodeInt64, parseInt64] at h
    split_ifs at h <;> cases h <;> assumption
  | null => exact Option.some.inj h ▸ hold
  | _ => cases h

theorem validUTF8_of_decodeElems : ∀ {old : List Bytes} {xs : List Parsed} {es : List Bytes},
    decodeElems old xs = some es → (∀ s ∈ old, ValidUTF8 s) → ∀ e ∈ es, ValidUTF8 e
  | _, [], _, h, _ => by cases h; simp
  | old, x :: xs, es, h, hold => by
    simp only [decodeElems, Option.bind_eq_bind, Option.bind_eq_some, Option.pure_def,
      Option.some.injEq] at h
    obtain ⟨e, he, es', hes', rfl⟩ := h
    have hhead : ValidUTF8 (old.headD []) := by
      cases old with
      | nil => exact validUTF8_nil
      | cons s _ => exact hold s (List.mem_cons_self _ _)
    exact List.forall_mem_cons.mpr ⟨validUTF8_of_decodeString he hhead,
      validUTF8_of_decodeElems hes' fun s hs => hold s (List.mem_of_mem_tail hs)⟩

theorem validUTF8_of_decodeStringSlice {old x : Option (List Bytes)} {v : Parsed}
    (h : decodeStringSlice old v = some x) (hold : ∀ s ∈ old.getD [], ValidUTF8 s) :
    ∀ s ∈ x.getD [], ValidUTF8 s := by
  cases v with
  | null => cases h; simp
  | arr xs =>
    obtain ⟨es, hes, rfl⟩ := Option.map_eq_some'.mp h
    exact validUTF8_of_decodeElems hes hold
  | _ => cases h

/-! ## What decoding each section keeps -/

section Sections

variable {σ : Type}

/-- A table whose every field's decoder keeps `P`. -/
def KeepsAll (T : List (StructField σ)) (P : σ → Prop) : Prop :=
  ∀ f ∈ T, ∀ s v x, f.decode (f.get s) v = some x → P s → P (f.set s x)

theorem keepsAll_nodeConfigFields : KeepsAll nodeConfigFields NodeConfig.Settled := by
  simp only [KeepsAll, nodeConfigFields, List.forall_mem_cons, List.not_mem_nil, false_implies,
    implies_true, and_true]
  exact ⟨fun _ _ _ h hs => ⟨validUTF8_of_decodeString h hs.1, hs.2⟩,
    fun _ _ _ h hs => ⟨hs.1, validUTF8_of_decodeString h hs.2⟩⟩

theorem keepsAll_p2pConfigFields : KeepsAll p2pConfigFields P2PConfig.Settled := by
  simp only [KeepsAll, p2pConfigFields, List.forall_mem_cons, List.not_mem_nil, false_implies,
    implies_true, and_true]
  exact ⟨fun _ _ _ h hs => ⟨fits64_of_decodeInt64 h hs.1, hs.2⟩,
    fun _ _ _ h hs => ⟨hs.1, validUTF8_of_decodeStringSlice h hs.2.1, hs.2.2⟩,
    fun _ _ _ h hs => ⟨hs.1, hs.2.1, fits64_of_decodeInt64 h hs.2.2⟩, fun _ _ _ _ hs => hs⟩

theorem keepsAll_storageConfigFields : KeepsAll storageConfigFields StorageConfig.Settled := by
  simp only [KeepsAll, storageConfigFields, List.forall_mem_cons, List.not_mem_nil,
    false_implies, implies_true, and_true]
  exact ⟨fun _ _ _ h hs => ⟨validUTF8_of_decodeString h hs.1, hs.2⟩,
    fun _ _ _ h hs => ⟨hs.1, fits64_of_decodeInt64 h hs.2⟩, fun _ _ _ _ hs => hs⟩

theorem keepsAll_aiConfigFields : KeepsAll aiConfigFields AIConfig.Settled := by
  simp only [KeepsAll, aiConfigFields, List.forall_mem_cons, List.not_mem_nil, false_implies,
    implies_true, and_true]
  exact ⟨fun _ _ _ h hs => ⟨validUTF8_of_decodeString h hs.1, hs.2⟩,
    fun _ _ _ h hs => ⟨hs.1, fits64_of_decodeInt64 h hs.2.1, hs.2.2⟩,
    fun _ _ _ h hs => ⟨hs.1, hs.2.1, fits64_of_decodeInt64 h hs.2.2⟩, fun _ _ _ _ hs => hs⟩

theorem keepsAll_loggingConfigFields : KeepsAll loggingConfigFields LoggingConfig.Settled := by
  simp only [KeepsAll, loggingConfigFields, List.forall_mem_cons, List.not_mem_nil,
    false_implies, implies_true, and_true]
  exact ⟨fun _ _ _ h hs => ⟨validUTF8_of_decodeString h hs.1, hs.2⟩,
    fun _ _ _ h hs => ⟨hs.1, validUTF8_of_decodeString h hs.2.1, hs.2.2⟩,
    fun _ _ _ h hs => ⟨hs.1, hs.2.1, validUTF8_of_decodeString h hs.2.2⟩⟩

end Sections

theorem keepsAll_configFields : KeepsAll configFields Config.Settled := by
  simp only [KeepsAll, configFields, List.forall_mem_cons, List.not_mem_nil, false_implies,
    implies_true, and_true]
  exact ⟨fun _ _ _ h hs => { hs with node := decodeFields_keeps keepsAll_nodeConfigFields h hs.node },
    fun _ _ _ h hs => { hs with p2p := decodeFields_keeps keepsAll_p2pConfigFields h hs.p2p },
    fun _ _ _ h hs =>
      { hs with storage := decodeFields_keeps keepsAll_storageConfigFields h hs.storage },
    fun _ _ _ h hs => { hs with ai := decodeFields_keeps keepsAll_aiConfigFields h hs.ai },
    fun _ _ _ h hs =>
      { hs with logging := decodeFields_keeps keepsAll_loggingConfigFields h hs.logging }⟩

/-! ## Load settles a config -/

/-- The defaults are settled when the home directory's data directory is valid UTF-8. -/
theorem settled_default {dataDir : Bytes} (h : ValidUTF8 dataDir) : (default dataDir).Settled :=
  ⟨show NodeConfig.Settled ⟨[], ascii "synapse-node"⟩ by decide,
    show P2PConfig.Settled ⟨8080, some [], 50, false⟩ by decide, ⟨h, show Fits64 10 by decide⟩,
    show AIConfig.Settled ⟨ascii "https://svceai.site/api/chat", 30, 3, true⟩ by decide,
    show LoggingConfig.Settled ⟨ascii "info", ascii "json", []⟩ by decide⟩

variable {E : Type}

/-- Whatever file it reads, `Load` returns a settled config. -/
theorem load_settled {path : Bytes} {readFile : Except (ReadError E) Bytes} {dataDir : Bytes}
    {cfg : Config} (h : load path readFile dataDir = .ok cfg) (hdir : ValidUTF8 dataDir) :
    cfg.Settled := by
  unfold load at h
  split at h
  · cases h; exact settled_default hdir
  · split at h
    · cases h; exact settled_default hdir
    · cases h
    · split at h
      · rename_i hd
        cases h
        obtain ⟨p, -, hp⟩ := Option.bind_eq_some.mp hd
        exact decodeFields_keeps keepsAll_configFields hp (settled_default hdir)
      · cases h

/-- **`Save` then `Load` gives back exactly the settled configs**: for a config whose `int`s
fit in 64 bits, `Load` of what `Save` wrote returns the config itself if and only if every
one of its strings is valid UTF-8. -/
theorem load_save_eq_iff {c : Config} (hc : c.IntsFit) {path : Bytes} (hpath : path ≠ [])
    (dataDir : Bytes) :
    ∃ data, c.save (none : Option E) none = (some data, .ok ()) ∧
      (load path (.ok data : Except (ReadError E) Bytes) dataDir = .ok c ↔ c.Settled) := by
  refine ⟨_, rfl, ?_⟩
  rw [load_marshalIndent hc hpath dataDir, Except.ok.injEq]
  exact ⟨fun h => h ▸ Config.settled_received hc, Config.Settled.received_eq⟩

theorem load_save_eq_iff_default :
    (Settings.default []).IntsFit ∧ ascii "config.json" ≠ [] ∧
      ∃ data, (Settings.default []).save (none : Option Unit) none = (some data, .ok ()) ∧
        (load (ascii "config.json") (.ok data : Except (ReadError Unit) Bytes) [] =
          .ok (Settings.default []) ↔ (Settings.default []).Settled) :=
  have hc : (Settings.default []).IntsFit := (settled_default validUTF8_nil).intsFit
  ⟨hc, by decide, load_save_eq_iff hc (by decide) []⟩

/-- **One `Load` settles a config file**: whatever file `Load` read, with a home directory
whose data directory is valid UTF-8, `Save` of the config it returned writes a file from which
`Load` returns that same config. -/
theorem load_save_load {path : Bytes} {readFile : Except (ReadError E) Bytes} {dataDir : Bytes}
    {cfg : Config} (h : load path readFile dataDir = .ok cfg) (hdir : ValidUTF8 dataDir)
    {path' : Bytes} (hpath' : path' ≠ []) (dataDir' : Bytes) :
    ∃ data, cfg.save (none : Option E) none = (some data, .ok ()) ∧
      load path' (.ok data : Except (ReadError E) Bytes) dataDir' = .ok cfg := by
  have hs := load_settled h hdir
  refine ⟨_, rfl, ?_⟩
  rw [load_marshalIndent hs.intsFit hpath' dataDir', hs.received_eq]

theorem load_save_load_name :
    load (ascii "config.json")
        (.ok (ascii "\x7b\"node\": \x7b\"name\": \"caf\\u00e9\"\x7d\x7d") : Except (ReadError Unit) Bytes)
        [] = .ok { Settings.default [] with
          node := { (Settings.default []).node with name := [0x63, 0x61, 0x66, 0xC3, 0xA9] } } ∧
      ValidUTF8 [] ∧ ascii "config.json" ≠ [] ∧
      ∃ data, ({ Settings.default [] with
          node := { (Settings.default []).node with name := [0x63, 0x61, 0x66, 0xC3, 0xA9] } } :
          Config).save (none : Option Unit) none = (some data, .ok ()) ∧
        load (ascii "config.json") (.ok data : Except (ReadError Unit) Bytes) [] =
          .ok { Settings.default [] with
            node := { (Settings.default []).node with name := [0x63, 0x61, 0x66, 0xC3, 0xA9] } } :=
  have h : load (ascii "config.json")
      (.ok (ascii "\x7b\"node\": \x7b\"name\": \"caf\\u00e9\"\x7d\x7d") : Except (ReadError Unit) Bytes)
      [] = .ok { Settings.default [] with
        node := { (Settings.default []).node with name := [0x63, 0x61, 0x66, 0xC3, 0xA9] } } := rfl
  ⟨h, validUTF8_nil, by decide, load_save_load h validUTF8_nil (by decide) []⟩

end Synapse.Settings
