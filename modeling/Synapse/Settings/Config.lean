import Synapse.Json.Fields

/-!
# The configuration file (`config.go`)

A node's settings are a `Config` of five sections, each a struct whose fields `encoding/json`
names by their tags. `Save` writes `json.MarshalIndent(c, "", "  ")` to the file, after
creating its directory. `Load` starts from `Default()` and lets `json.Unmarshal` set what the
file holds over it, so a setting the file leaves out keeps its default; an empty path or a
missing file gives the defaults themselves. `Validate` checks the port range, the three
minimums and the log level, in that order.

The main result is the round trip: whatever `Save` writes, `Load` reads back as the config
that was saved, every string made valid UTF-8 as `json.Marshal` writes it, and every `int`
(64 bits on the node's platforms) as it was (`load_save`).
-/

namespace Synapse.Settings

open Synapse.Json

/-- `NodeConfig`. -/
structure NodeConfig where
  id : Bytes
  name : Bytes
  deriving DecidableEq, Repr

/-- `P2PConfig`; `bootstrapPeers` is `none` for a `nil` slice. -/
structure P2PConfig where
  listenPort : Int
  bootstrapPeers : Option (List Bytes)
  maxPeers : Int
  enableDiscovery : Bool
  deriving DecidableEq, Repr

/-- `StorageConfig`. -/
structure StorageConfig where
  dataDir : Bytes
  maxSizeGB : Int
  enableBackups : Bool
  deriving DecidableEq, Repr

/-- `AIConfig`. -/
structure AIConfig where
  endpoint : Bytes
  timeout : Int
  maxRetries : Int
  enableOffline : Bool
  deriving DecidableEq, Repr

/-- `LoggingConfig`. -/
structure LoggingConfig where
  level : Bytes
  format : Bytes
  outputFile : Bytes
  deriving DecidableEq, Repr

/-- `Config`. -/
structure Config where
  node : NodeConfig
  p2p : P2PConfig
  storage : StorageConfig
  ai : AIConfig
  logging : LoggingConfig
  deriving DecidableEq, Repr

/-! ## The JSON fields -/

/-- The fields of `NodeConfig`, named by their tags. -/
def nodeConfigFields : List (StructField NodeConfig) :=
  [.string (ascii "id") (·.id) fun c x => { c with id := x },
   .string (ascii "name") (·.name) fun c x => { c with name := x }]

/-- The fields of `P2PConfig`. -/
def p2pConfigFields : List (StructField P2PConfig) :=
  [.int (ascii "listen_port") (·.listenPort) fun c x => { c with listenPort := x },
   .stringSlice (ascii "bootstrap_peers") (·.bootstrapPeers)
     fun c x => { c with bootstrapPeers := x },
   .int (ascii "max_peers") (·.maxPeers) fun c x => { c with maxPeers := x },
   .bool (ascii "enable_discovery") (·.enableDiscovery) fun c x => { c with enableDiscovery := x }]

/-- The fields of `StorageConfig`. -/
def storageConfigFields : List (StructField StorageConfig) :=
  [.string (ascii "data_dir") (·.dataDir) fun c x => { c with dataDir := x },
   .int (ascii "max_size_gb") (·.maxSizeGB) fun c x => { c with maxSizeGB := x },
   .bool (ascii "enable_backups") (·.enableBackups) fun c x => { c with enableBackups := x }]

/-- The fields of `AIConfig`. -/
def aiConfigFields : List (StructField AIConfig) :=
  [.string (ascii "endpoint") (·.endpoint) fun c x => { c with endpoint := x },
   .int (ascii "timeout") (·.timeout) fun c x => { c with timeout := x },
   .int (ascii "max_retries") (·.maxRetries) fun c x => { c with maxRetries := x },
   .bool (ascii "enable_offline_queue") (·.enableOffline) fun c x => { c with enableOffline := x }]

/-- The fields of `LoggingConfig`. -/
def loggingConfigFields : List (StructField LoggingConfig) :=
  [.string (ascii "level") (·.level) fun c x => { c with level := x },
   .string (ascii "format") (·.format) fun c x => { c with format := x },
   .string (ascii "output_file") (·.outputFile) fun c x => { c with outputFile := x }]

/-! ## Each field its own storage -/

theorem lawful_nodeConfigFields : Lawful nodeConfigFields := by
  constructor <;> simp only [nodeConfigFields, List.mem_cons, List.mem_nil_iff, or_false]
  · rintro f (rfl | rfl) s x <;> rfl
  · rintro f (rfl | rfl) g (rfl | rfl) hne s x <;> first | rfl | exact absurd rfl hne

theorem lawful_p2pConfigFields : Lawful p2pConfigFields := by
  constructor <;> simp only [p2pConfigFields, List.mem_cons, List.mem_nil_iff, or_false]
  · rintro f (rfl | rfl | rfl | rfl) s x <;> rfl
  · rintro f (rfl | rfl | rfl | rfl) g (rfl | rfl | rfl | rfl) hne s x <;>
      first | rfl | exact absurd rfl hne

theorem lawful_storageConfigFields : Lawful storageConfigFields := by
  constructor <;> simp only [storageConfigFields, List.mem_cons, List.mem_nil_iff, or_false]
  · rintro f (rfl | rfl | rfl) s x <;> rfl
  · rintro f (rfl | rfl | rfl) g (rfl | rfl | rfl) hne s x <;> first | rfl | exact absurd rfl hne

theorem lawful_aiConfigFields : Lawful aiConfigFields := by
  constructor <;> simp only [aiConfigFields, List.mem_cons, List.mem_nil_iff, or_false]
  · rintro f (rfl | rfl | rfl | rfl) s x <;> rfl
  · rintro f (rfl | rfl | rfl | rfl) g (rfl | rfl | rfl | rfl) hne s x <;>
      first | rfl | exact absurd rfl hne

theorem lawful_loggingConfigFields : Lawful loggingConfigFields := by
  constructor <;> simp only [loggingConfigFields, List.mem_cons, List.mem_nil_iff, or_false]
  · rintro f (rfl | rfl | rfl) s x <;> rfl
  · rintro f (rfl | rfl | rfl) g (rfl | rfl | rfl) hne s x <;> first | rfl | exact absurd rfl hne

/-- The fields of `Config`: its five sections. -/
def configFields : List (StructField Config) :=
  [.struct (ascii "node") ⟨nodeConfigFields, lawful_nodeConfigFields⟩ (·.node)
     fun c x => { c with node := x },
   .struct (ascii "p2p") ⟨p2pConfigFields, lawful_p2pConfigFields⟩ (·.p2p)
     fun c x => { c with p2p := x },
   .struct (ascii "storage") ⟨storageConfigFields, lawful_storageConfigFields⟩ (·.storage)
     fun c x => { c with storage := x },
   .struct (ascii "ai") ⟨aiConfigFields, lawful_aiConfigFields⟩ (·.ai)
     fun c x => { c with ai := x },
   .struct (ascii "logging") ⟨loggingConfigFields, lawful_loggingConfigFields⟩ (·.logging)
     fun c x => { c with logging := x }]

theorem lawful_configFields : Lawful configFields := by
  constructor <;> simp only [configFields, List.mem_cons, List.mem_nil_iff, or_false]
  · rintro f (rfl | rfl | rfl | rfl | rfl) s x <;> rfl
  · rintro f (rfl | rfl | rfl | rfl | rfl) g (rfl | rfl | rfl | rfl | rfl) hne s x <;>
      first | rfl | exact absurd rfl hne

/-! ## Default, Load, Save and Validate -/

/-- `Default()`, where `dataDir` is the `filepath.Join(homeDir, ".synapse", "data")` it
computes from the home directory. -/
def default (dataDir : Bytes) : Config :=
  ⟨⟨[], ascii "synapse-node"⟩, ⟨8080, some [], 50, false⟩, ⟨dataDir, 10, true⟩,
    ⟨ascii "https://svceai.site/api/chat", 30, 3, true⟩, ⟨ascii "info", ascii "json", []⟩⟩

/-- How `os.ReadFile` fails: with an error `os.IsNotExist` accepts, or another. -/
inductive ReadError (E : Type) where
  | notExist
  | other (err : E)

/-- The errors of `Load`. -/
inductive LoadError (E : Type) where
  /-- "failed to read config file: %w" -/
  | read (err : E)
  /-- "failed to parse config file: %w" -/
  | parse

variable {E : Type}

/-- `Load(path)`, where `readFile` is what `os.ReadFile(path)` returns. -/
def load (path : Bytes) (readFile : Except (ReadError E) Bytes) (dataDir : Bytes) :
    Except (LoadError E) Config :=
  if path = [] then .ok (default dataDir)
  else match readFile with
    | .error .notExist => .ok (default dataDir)
    | .error (.other err) => .error (.read err)
    | .ok data =>
      match unmarshal (decodeFields configFields (default dataDir)) data with
      | some cfg => .ok cfg
      | none => .error .parse

/-- The errors of `Save` after marshalling, which cannot fail on a `Config`. -/
inductive SaveError (E : Type) where
  /-- "failed to create config directory: %w" -/
  | mkdir (err : E)
  /-- "failed to write config file: %w" -/
  | write (err : E)

/-- `c.Save(path)`, where `os.MkdirAll` of the path's directory returns `mkdirAll` and
`os.WriteFile` returns `writeFile`: the bytes handed to `WriteFile`, if it is reached, and
the error. -/
def Config.save (c : Config) (mkdirAll writeFile : Option E) :
    Option Bytes × Except (SaveError E) Unit :=
  let data := (encodeFields configFields c).marshalIndent
  match mkdirAll, writeFile with
  | some err, _ => (none, .error (.mkdir err))
  | none, some err => (some data, .error (.write err))
  | none, none => (some data, .ok ())

/-- The errors of `Validate`. -/
inductive ValidateError where
  | listenPort (port : Int)
  | maxPeers
  | maxSizeGB
  | timeout
  | logLevel (level : Bytes)
  deriving DecidableEq, Repr

/-- The text of a `Validate` error. -/
def ValidateError.message : ValidateError → Bytes
  | .listenPort port => ascii "invalid P2P listen port: " ++ intLiteral port
  | .maxPeers => ascii "max peers must be at least 1"
  | .maxSizeGB => ascii "max storage size must be at least 1 GB"
  | .timeout => ascii "AI timeout must be at least 1 second"
  | .logLevel level => ascii "invalid log level: " ++ level

/-- `validLogLevels`. -/
def validLogLevels : List Bytes := [ascii "debug", ascii "info", ascii "warn", ascii "error"]

/-- `c.Validate()`. -/
def Config.validate (c : Config) : Except ValidateError Unit :=
  if c.p2p.listenPort < 1024 ∨ c.p2p.listenPort > 65535 then .error (.listenPort c.p2p.listenPort)
  else if c.p2p.maxPeers < 1 then .error .maxPeers
  else if c.storage.maxSizeGB < 1 then .error .maxSizeGB
  else if c.ai.timeout < 1 then .error .timeout
  else if c.logging.level ∉ validLogLevels then .error (.logLevel c.logging.level)
  else .ok ()

/-- The defaults pass `Validate`, whatever the home directory. -/
theorem validate_default (dataDir : Bytes) : (default dataDir).validate = .ok () := by
  have hlevel : ascii "info" ∈ validLogLevels := by decide
  simp [Config.validate, default, hlevel]

/-! ## Save, then Load -/

/-- What a section reads back as: its strings made valid UTF-8. -/
def NodeConfig.received (n : NodeConfig) : NodeConfig := ⟨coerceUTF8 n.id, coerceUTF8 n.name⟩

/-- The bootstrap peers made valid UTF-8. -/
def P2PConfig.received (p : P2PConfig) : P2PConfig :=
  { p with bootstrapPeers := p.bootstrapPeers.map (List.map coerceUTF8) }

/-- The data directory made valid UTF-8. -/
def StorageConfig.received (s : StorageConfig) : StorageConfig :=
  { s with dataDir := coerceUTF8 s.dataDir }

/-- The endpoint made valid UTF-8. -/
def AIConfig.received (a : AIConfig) : AIConfig := { a with endpoint := coerceUTF8 a.endpoint }

/-- The level, format and output file made valid UTF-8. -/
def LoggingConfig.received (l : LoggingConfig) : LoggingConfig :=
  ⟨coerceUTF8 l.level, coerceUTF8 l.format, coerceUTF8 l.outputFile⟩

/-- What a config reads back as after `json.Marshal`: every string made valid UTF-8. -/
def Config.received (c : Config) : Config :=
  ⟨c.node.received, c.p2p.received, c.storage.received, c.ai.received, c.logging.received⟩

/-- Every `int` of the config in 64 bits, as every value of Go's `int` is on the platforms the
node runs on. -/
def Config.IntsFit (c : Config) : Prop :=
  ∀ n ∈ [c.p2p.listenPort, c.p2p.maxPeers, c.storage.maxSizeGB, c.ai.timeout, c.ai.maxRetries],
    -2 ^ 63 ≤ n ∧ n < 2 ^ 63

theorem nodeConfig_readsBack (n : NodeConfig) (old : NodeConfig) :
    decodeFields nodeConfigFields old (encodeFields nodeConfigFields n).toParsed =
      some n.received :=
  decodeFields_encodeFields (by decide) (by decide)
    (by simp only [nodeConfigFields, List.forall_mem_cons, List.not_mem_nil,
      false_implies, implies_true, and_true]
        exact ⟨StructField.string_readsBack _ _ _ _, StructField.string_readsBack _ _ _ _⟩)
    (fun _ => rfl) old

theorem p2pConfig_readsBack {p : P2PConfig} (h1 : -2 ^ 63 ≤ p.listenPort ∧ p.listenPort < 2 ^ 63)
    (h2 : -2 ^ 63 ≤ p.maxPeers ∧ p.maxPeers < 2 ^ 63) (old : P2PConfig) :
    decodeFields p2pConfigFields old (encodeFields p2pConfigFields p).toParsed =
      some p.received :=
  decodeFields_encodeFields (by decide) (by decide)
    (by simp only [p2pConfigFields, List.forall_mem_cons, List.not_mem_nil,
      false_implies, implies_true, and_true]
        exact ⟨StructField.int_readsBack _ _ _ h1, StructField.stringSlice_readsBack _ _ _ _,
          StructField.int_readsBack _ _ _ h2, StructField.bool_readsBack _ _ _ _⟩)
    (fun _ => rfl) old

theorem storageConfig_readsBack {s : StorageConfig}
    (h : -2 ^ 63 ≤ s.maxSizeGB ∧ s.maxSizeGB < 2 ^ 63) (old : StorageConfig) :
    decodeFields storageConfigFields old (encodeFields storageConfigFields s).toParsed =
      some s.received :=
  decodeFields_encodeFields (by decide) (by decide)
    (by simp only [storageConfigFields, List.forall_mem_cons, List.not_mem_nil,
      false_implies, implies_true, and_true]
        exact ⟨StructField.string_readsBack _ _ _ _, StructField.int_readsBack _ _ _ h,
          StructField.bool_readsBack _ _ _ _⟩)
    (fun _ => rfl) old

theorem aiConfig_readsBack {a : AIConfig} (h1 : -2 ^ 63 ≤ a.timeout ∧ a.timeout < 2 ^ 63)
    (h2 : -2 ^ 63 ≤ a.maxRetries ∧ a.maxRetries < 2 ^ 63) (old : AIConfig) :
    decodeFields aiConfigFields old (encodeFields aiConfigFields a).toParsed = some a.received :=
  decodeFields_encodeFields (by decide) (by decide)
    (by simp only [aiConfigFields, List.forall_mem_cons, List.not_mem_nil,
      false_implies, implies_true, and_true]
        exact ⟨StructField.string_readsBack _ _ _ _, StructField.int_readsBack _ _ _ h1,
          StructField.int_readsBack _ _ _ h2, StructField.bool_readsBack _ _ _ _⟩)
    (fun _ => rfl) old

theorem loggingConfig_readsBack (l : LoggingConfig) (old : LoggingConfig) :
    decodeFields loggingConfigFields old (encodeFields loggingConfigFields l).toParsed =
      some l.received :=
  decodeFields_encodeFields (by decide) (by decide)
    (by simp only [loggingConfigFields, List.forall_mem_cons, List.not_mem_nil,
      false_implies, implies_true, and_true]
        exact ⟨StructField.string_readsBack _ _ _ _, StructField.string_readsBack _ _ _ _,
          StructField.string_readsBack _ _ _ _⟩)
    (fun _ => rfl) old

/-- A config reads its own encoding back, into any config. -/
theorem config_readsBack {c : Config} (hc : c.IntsFit) (old : Config) :
    decodeFields configFields old (encodeFields configFields c).toParsed = some c.received := by
  simp only [Config.IntsFit, List.forall_mem_cons, List.not_mem_nil,
      false_implies, implies_true, and_true] at hc
  obtain ⟨h1, h2, h3, h4, h5⟩ := hc
  exact decodeFields_encodeFields (by decide) (by decide)
    (by simp only [configFields, List.forall_mem_cons, List.not_mem_nil,
      false_implies, implies_true, and_true]
        exact ⟨nodeConfig_readsBack _, p2pConfig_readsBack h1 h2, storageConfig_readsBack h3,
          aiConfig_readsBack h4 h5, loggingConfig_readsBack _⟩)
    (fun _ => rfl) old

/-- The config's tree nests three deep: sections, then the bootstrap peers. -/
theorem depth_encodeFields_config (c : Config) : (encodeFields configFields c).depth ≤ 3 := by
  refine depth_encodeFields_le fun f hf => ?_
  simp only [configFields, List.mem_cons, List.mem_nil_iff, or_false] at hf
  rcases hf with rfl | rfl | rfl | rfl | rfl <;> refine depth_encodeFields_le fun g hg => ?_ <;>
  · simp only [nodeConfigFields, p2pConfigFields, storageConfigFields, aiConfigFields,
      loggingConfigFields, List.mem_cons, List.mem_nil_iff, or_false] at hg
    rcases hg with rfl | rfl | rfl | rfl <;>
      first | exact depth_stringSliceValue _ | exact Nat.zero_le 1

/-- `Load` of a non-empty path whose file holds the indented encoding of a config reads the
config back, strings made valid UTF-8, over any defaults. -/
theorem load_marshalIndent {c : Config} (hc : c.IntsFit) {path : Bytes} (hpath : path ≠ [])
    (dataDir : Bytes) :
    load path (.ok (encodeFields configFields c).marshalIndent : Except (ReadError E) Bytes)
      dataDir = .ok c.received := by
  have hparse := @parseText_marshalIndent (encodeFields configFields c)
    ((depth_encodeFields_config c).trans (by decide)) [] (fun _ h => nomatch h)
  rw [List.append_nil] at hparse
  have hdecode : unmarshal (decodeFields configFields (default dataDir))
      (encodeFields configFields c).marshalIndent = some c.received := by
    rw [unmarshal, hparse, Option.some_bind, config_readsBack hc]
  rw [load, if_neg hpath, hdecode]

/-- **What `Save` writes, `Load` reads back**: with the directory created and the file
written, `Save` hands `WriteFile` the bytes from which `Load` of the same path gets the saved
config, its strings made valid UTF-8, over any defaults. -/
theorem load_save (c : Config) (hc : c.IntsFit) {path : Bytes} (hpath : path ≠ [])
    (dataDir : Bytes) :
    ∃ data, c.save (none : Option E) none = (some data, .ok ()) ∧
      load path (.ok data : Except (ReadError E) Bytes) dataDir = .ok c.received :=
  ⟨_, rfl, load_marshalIndent hc hpath dataDir⟩

theorem load_save_node :
    (default []).IntsFit ∧ ascii "config.json" ≠ [] ∧
      ∃ data, (default []).save (none : Option Unit) none = (some data, .ok ()) ∧
        load (ascii "config.json") (.ok data : Except (ReadError Unit) Bytes) [] =
          .ok (default []).received :=
  have hc : (default []).IntsFit := by
    simp only [Config.IntsFit, default, List.forall_mem_cons, List.not_mem_nil,
      false_implies, implies_true, and_true]
    decide
  ⟨hc, by decide, load_save (default []) hc (by decide) []⟩

/-- **A setting the file never names keeps its default**: when no key anywhere in the file
matches a setting's JSON name, the config `Load` returns holds `Default()`'s value for it. -/
theorem load_keeps_default {τ : Type} {name : Bytes} {U : Table τ} {get : Config → τ}
    {set : Config → τ → Config} (hF : StructField.struct name U get set ∈ configFields)
    {g : StructField τ}
    (hg : g ∈ U.fields) {path data dataDir : Bytes} {cfg : Config}
    (hload : load path (.ok data : Except (ReadError E) Bytes) dataDir = .ok cfg)
    (hkey : ∀ p ∈ parseText data, p.anyKey (keyIs g.name) = false) :
    g.get (get cfg) = g.get (get (default dataDir)) := by
  unfold load at hload
  split_ifs at hload
  · cases hload
    rfl
  · dsimp only at hload
    split at hload
    · rename_i c' hu
      cases hload
      obtain ⟨p, hp, hdec⟩ := Option.bind_eq_some.mp hu
      refine decodeFields_induct (P := fun s => g.get (get s) = g.get (get (default dataDir)))
        (fun kvs hkvs kv hkv key _ s s' h hs => ?_) hdec rfl
      have hmem := anyKey_obj_eq_false (hkvs ▸ hkey p hp) kv hkv
      refine (get_get_of_setField lawful_configFields (by decide) hF hg (fun kvs' hv => ?_) h).trans
        hs
      exact fun kv' hkv' => (anyKey_obj_eq_false (hv ▸ hmem.2) kv' hkv').1
    · cases hload

theorem load_keeps_default_max_peers :
    load (ascii "config.json")
        (.ok (ascii "\x7b\"p2p\": \x7b\"listen_port\": 9000\x7d\x7d") : Except (ReadError Unit) Bytes) [] =
        .ok { default [] with p2p := { (default []).p2p with listenPort := 9000 } } ∧
      (∀ p ∈ parseText (ascii "\x7b\"p2p\": \x7b\"listen_port\": 9000\x7d\x7d"),
        p.anyKey (keyIs (ascii "max_peers")) = false) ∧
      ({ default [] with p2p := { (default []).p2p with listenPort := 9000 } } :
          Config).p2p.maxPeers =
        (default []).p2p.maxPeers :=
  have hload : load (ascii "config.json")
      (.ok (ascii "\x7b\"p2p\": \x7b\"listen_port\": 9000\x7d\x7d") : Except (ReadError Unit) Bytes) [] =
      .ok { default [] with p2p := { (default []).p2p with listenPort := 9000 } } := rfl
  have hkey : ∀ p ∈ parseText (ascii "\x7b\"p2p\": \x7b\"listen_port\": 9000\x7d\x7d"),
      p.anyKey (keyIs (ascii "max_peers")) = false := by decide
  have hmax := load_keeps_default (g := StructField.int (ascii "max_peers") (·.maxPeers)
    fun c x => { c with maxPeers := x }) (List.mem_cons_of_mem _ (List.mem_cons_self _ _))
    (List.mem_cons_of_mem _ (List.mem_cons_of_mem _ (List.mem_cons_self _ _))) hload hkey
  ⟨hload, hkey, hmax⟩

end Synapse.Settings
