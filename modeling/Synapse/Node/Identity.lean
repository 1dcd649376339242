import Synapse.Node.Uuid
import Synapse.Settings.Config

/-!
# A node's id across restarts (`node.New`)

`New` takes its id from the configuration. An empty `cfg.Node.ID` is replaced by the text of
a fresh version 4 UUID, which `New` also writes back into the config, so that a `Save` after
it keeps the id; any id must then pass `uuid.Parse`. The node's state once these checks pass
is `Node.new`.

A node restarted from the config it saved gets the same id: `Save` writes the id, `Load`
reads it back unchanged when it is valid UTF-8 (a generated id is ASCII), and `New` accepts
it again and writes nothing (`newID_load_save`). The hypothesis on a configured id is needed
for its form between braces, whose first and last bytes `Parse` never looks at.
-/

namespace Synapse.Node

open Synapse.Json Synapse.Settings Synapse.Uuid

/-- The errors of `New`. -/
inductive NewError where
  /-- "config cannot be nil" -/
  | nilConfig
  /-- "logger cannot be nil" -/
  | nilLogger
  /-- "invalid node ID format: %w" -/
  | invalidID (err : ParseError)
  deriving DecidableEq, Repr

/-- The checks of `New(cfg, log)` and the id it settles on, with the config after it:
`none` stands for a `nil` config, `log` for a non-`nil` logger, and `draw` for the sixteen
bytes `uuid.New` reads. -/
def newID (cfg : Option Config) (log : Bool) (draw : UUID) : Except NewError (Bytes × Config) :=
  match cfg, log with
  | none, _ => .error .nilConfig
  | some _, false => .error .nilLogger
  | some cfg, true =>
    let nodeID := if cfg.node.id = [] then (newRandom draw).string else cfg.node.id
    let cfg := if cfg.node.id = [] then { cfg with node := { cfg.node with id := nodeID } }
      else cfg
    match parse nodeID with
    | .error err => .error (.invalidID err)
    | .ok _ => .ok (nodeID, cfg)

/-- What a successful `New` did: the id passes `Parse`, the config now holds it, and it is
the configured id or, for an empty one, a fresh UUID's text. -/
theorem newID_ok {cfg cfg' : Config} {draw : UUID} {id : Bytes}
    (h : newID (some cfg) true draw = .ok (id, cfg')) :
    (∃ u, parse id = .ok u) ∧ cfg' = { cfg with node := { cfg.node with id := id } } ∧
      (cfg.node.id = id ∨ id = (newRandom draw).string) := by
  by_cases he : cfg.node.id = []
  · simp only [newID, if_pos he] at h
    split at h
    · cases h
    · rename_i u hu
      cases h
      exact ⟨⟨u, hu⟩, rfl, .inr rfl⟩
  · simp only [newID, if_neg he] at h
    split at h
    · cases h
    · rename_i u hu
      cases h
      exact ⟨⟨u, hu⟩, rfl, .inl rfl⟩

/-- `New` keeps a config whose id passes `Parse`. -/
theorem newID_of_parse {cfg : Config} {u : UUID} (hu : parse cfg.node.id = .ok u)
    (draw : UUID) : newID (some cfg) true draw = .ok (cfg.node.id, cfg) := by
  have hne : cfg.node.id ≠ [] := fun he => by rw [he, parse_nil] at hu; cases hu
  simp only [newID, if_neg hne, hu]

/-- **`New` accepts every id it generates**: on a config without an id, it succeeds for every
draw, with the text of the fresh UUID as the node's id and as the config's. -/
theorem newID_of_empty {cfg : Config} (h : cfg.node.id = []) (draw : UUID) :
    newID (some cfg) true draw =
      .ok ((newRandom draw).string,
        { cfg with node := { cfg.node with id := (newRandom draw).string } }) := by
  simp only [newID, if_pos h, parse_string]

theorem newID_of_empty_default :
    (Settings.default []).node.id = [] ∧
      newID (some (Settings.default [])) true (fun _ => 0) =
        .ok ((newRandom fun _ => 0).string, { Settings.default [] with
          node := { (Settings.default []).node with id := (newRandom fun _ => 0).string } }) :=
  ⟨rfl, newID_of_empty rfl _⟩

variable {E : Type}

/-- **A node restarted from the config it saved keeps its id**: after a `New` that accepts
a config whose id is valid UTF-8 (an empty id included), `Save` succeeds, `Load` of the saved
file succeeds, and `New` on what it loads returns the same id and leaves the config as it is,
whatever `uuid.New` would draw. -/
theorem newID_load_save {cfg cfg1 : Config} {draw : UUID} {id : Bytes}
    (hnew : newID (some cfg) true draw = .ok (id, cfg1)) (hc : cfg.IntsFit)
    (hv : ValidUTF8 cfg.node.id) {path : Bytes} (hpath : path ≠ []) (dataDir : Bytes)
    (draw' : UUID) :
    ∃ data cfg2, cfg1.save (none : Option E) none = (some data, .ok ()) ∧
      load path (.ok data : Except (ReadError E) Bytes) dataDir = .ok cfg2 ∧
      newID (some cfg2) true draw' = .ok (id, cfg2) := by
  obtain ⟨⟨u, hu⟩, rfl, hid⟩ := newID_ok hnew
  have hvalid : ValidUTF8 id := by
    rcases hid with rfl | rfl
    · exact hv
    · exact validUTF8_of_lt (lt_of_mem_string _)
  have hc1 : Config.IntsFit { cfg with node := { cfg.node with id := id } } := hc
  have hl := load_marshalIndent (E := E) hc1 hpath dataDir
  refine ⟨_, _, rfl, hl, ?_⟩
  have hback : (({ cfg with node := { cfg.node with id := id } } : Config).received).node.id =
      id := coerceUTF8_of_validUTF8 hvalid
  have := newID_of_parse (hback ▸ hu) draw'
  rwa [hback] at this

theorem newID_load_save_default :
    newID (some (Settings.default [])) true (fun _ => 0) =
        .ok ((newRandom fun _ => 0).string,
          { Settings.default [] with
            node := { (Settings.default []).node with id := (newRandom fun _ => 0).string } }) ∧
      (Settings.default []).IntsFit ∧ ValidUTF8 (Settings.default []).node.id ∧
      ascii "config.json" ≠ [] ∧
      ∃ data cfg2,
        ({ Settings.default [] with
            node := { (Settings.default []).node with id := (newRandom fun _ => 0).string } } :
          Config).save (none : Option Unit) none = (some data, .ok ()) ∧
        load (ascii "config.json") (.ok data : Except (ReadError Unit) Bytes) [] = .ok cfg2 ∧
        newID (some cfg2) true (fun _ => 1) = .ok ((newRandom fun _ => 0).string, cfg2) :=
  have hnew : newID (some (Settings.default [])) true (fun _ => 0) =
      .ok ((newRandom fun _ => 0).string,
        { Settings.default [] with
            node := { (Settings.default []).node with id := (newRandom fun _ => 0).string } }) := by
    simp only [newID, Settings.default, if_true, parse_string]
  have hc : (Settings.default []).IntsFit := by
    simp only [Config.IntsFit, Settings.default, List.forall_mem_cons, List.not_mem_nil, false_implies,
      implies_true, and_true]
    decide
  have hv : ValidUTF8 (Settings.default []).node.id := by decide
  ⟨hnew, hc, hv, by decide, newID_load_save hnew hc hv (by decide) [] (fun _ => 1)⟩

end Synapse.Node
