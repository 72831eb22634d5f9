import Pprof.PerfMap
import Pprof.Lib.Runs
import Pprof.Lib.Sharing
set_option autoImplicit false

/-! The resolver that lookups use is a perf map read earlier. Each lookup starts a thread
that reads the file again if its modification time has another second. -/

namespace Pprof
open Runs Sharing

/-- The perf map file; the time is in nanoseconds since the epoch. -/
structure MapFile where
  content : List UInt8
  mtime : Int

def as_secs (mtime : Int) : Option Nat :=
  if 0 ≤ mtime then some (mtime.toNat / 10^9) else none

/-- A map, and how often the file had been modified when its first bytes were read. -/
structure LoadedMap where
  map : PerfMap
  revision : Nat
  deriving DecidableEq, Repr

inductive LazyResolver where
  | empty
  | running
  | ready (perf_map : Option LoadedMap)
  | poisoned
  deriving DecidableEq, Repr

def LazyResolver.stored : LazyResolver → Option LoadedMap
  | .ready perf_map => perf_map
  | _ => none

/-- `revision` counts the modifications; no step depends on it. -/
structure PerfMaps where
  file : Option MapFile
  revision : Nat
  MTIME : Nat
  RESOLVER : LazyResolver

def PerfMaps.started : PerfMaps := ⟨none,0,0,.empty⟩

/-- For whom `init_resolver` runs: for a refresh, or for the initialisation of `RESOLVER`, after
which the thread may have a map of its own to store. -/
inductive Job where
  | refresh
  | init (resume : Option LoadedMap)

inductive RefreshPc where
  | begin
  | load_resolver
  | touch (resume : Option LoadedMap)
  | open_file (job : Job)
  | metadata (job : Job)
  | load_mtime (job : Job) (secs : Nat)
  | store_mtime (job : Job) (secs : Nat)
  | read (job : Job) (reader : MapReader) (revision : Nat)
  | store_resolver (perf_map : LoadedMap)
  | done
  | panicked

/-- A thread that `get_resolver` has spawned, or the one that has called it; `began` is the
revision at which it began to run. -/
structure Refresh where
  began : Nat
  spawned : Bool
  pc : RefreshPc

abbrev Refreshes := Shared PerfMaps Refresh

def PerfMaps.finish (s : PerfMaps) (t : Refresh) (result : Option LoadedMap) :
    Job → PerfMaps × Refresh
  | .refresh =>
    match result with
    | none => (s,{ t with pc := .done })
    | some perf_map => (s,{ t with pc := .store_resolver perf_map })
  | .init resume =>
    match resume with
    | none => ({ s with RESOLVER := .ready result },{ t with pc := .done })
    | some perf_map =>
      ({ s with RESOLVER := .ready result },{ t with pc := .store_resolver perf_map })

def PerfMaps.force (s : PerfMaps) (t : Refresh) (resume : Option LoadedMap)
    (ready : PerfMaps × Refresh) : Option (PerfMaps × Refresh) :=
  match s.RESOLVER with
  | .empty => some ({ s with RESOLVER := .running },{ t with pc := .touch resume })
  | .running => none
  | .ready _ => some ready
  | .poisoned => some (s,{ t with pc := .panicked })

/-- One step of a thread. A `read` gets at most `n` bytes; a file that is created has the
time `now`. -/
def PerfMaps.next (n : Nat) (now : Int) (s : PerfMaps) (t : Refresh) :
    Option (PerfMaps × Refresh) :=
  match t.pc with
  | .begin => some (s,{ t with began := s.revision, pc := .open_file .refresh })
  | .load_resolver => s.force t none (s,{ t with pc := .done })
  | .touch resume =>
    match s.file with
    | some _ => some (s,{ t with pc := .open_file (.init resume) })
    | none => some ({ s with file := some ⟨[],now⟩, revision := s.revision + 1 },
        { t with pc := .open_file (.init resume) })
  | .open_file job =>
    match s.file with
    | none => some (s.finish t none job)
    | some _ => some (s,{ t with pc := .metadata job })
  | .metadata job =>
    match s.file.bind fun f => as_secs f.mtime with
    | none => some (s.finish t none job)
    | some secs => some (s,{ t with pc := .load_mtime job secs })
  | .load_mtime job secs =>
    if s.MTIME = secs then some (s.finish t none job)
    else some (s,{ t with pc := .store_mtime job secs })
  | .store_mtime job secs =>
    some ({ s with MTIME := secs },{ t with pc := .read job .start s.revision })
  | .read job reader revision =>
    s.file.bind fun f =>
      if n = 0 then none
      else
        let revision := if reader.pos = 0 then s.revision else revision
        match reader.read f.content n with
        | .ok (some reader) => some (s,{ t with pc := .read job reader revision })
        | .ok none => some (s.finish t (some ⟨⟨reader.ranges⟩,revision⟩) job)
        | .error .early => some (s.finish t none job)
        | .error (.panic _) =>
          match job with
          | .refresh => some (s,{ t with pc := .panicked })
          | .init _ => some ({ s with RESOLVER := .poisoned },{ t with pc := .panicked })
  | .store_resolver perf_map =>
    s.force t (some perf_map)
      ({ s with RESOLVER := .ready (some perf_map) },{ t with pc := .done })
  | .done | .panicked => none

inductive RefreshStep where
  | get_resolver
  | modify (content : List UInt8) (mtime : Int)
  | go (i n : Nat) (now : Int)

def Refreshes.step (s : Refreshes) : RefreshStep → Option Refreshes
  | .get_resolver =>
    some ((s.spawn ⟨s.state.revision,true,.begin⟩).spawn
      ⟨s.state.revision,false,.load_resolver⟩)
  | .modify content mtime =>
    if s.state.file.all fun f => f.mtime ≤ mtime then
      some { s with state := { s.state with
        file := some ⟨content,mtime⟩, revision := s.state.revision + 1 } }
    else none
  | .go i n now => s.go (PerfMaps.next n now) i

def RefreshPc.finished : RefreshPc → Bool
  | .done | .panicked => true
  | _ => false

def PerfMaps.Parses (s : PerfMaps) (map : PerfMap) : Prop :=
  ∃ f, s.file = some f ∧ PerfMap.new f.content = .ok map

/-- When the threads that were spawned are through and one of them began after the last
modification, `RESOLVER` holds the map of the current content. -/
def Refreshes.Fresh (s : Refreshes) : Prop :=
  (∀ t ∈ s.threads, t.spawned = true → t.pc.finished = true) →
    (∃ t ∈ s.threads, t.spawned = true ∧ t.began = s.state.revision) →
    ∀ map, s.state.Parses map → s.state.RESOLVER.stored.map LoadedMap.map = some map

abbrev PerfMaps.NewSecond (s : PerfMaps) (mtime : Int) : Prop :=
  as_secs mtime ≠ none ∧ as_secs mtime ≠ some s.MTIME

def panics {α : Type} : Except Stop α → Bool
  | .error (.panic _) => true
  | _ => false

/-- No modification stays within the recorded second, no map replaces one that was read later,
and `RESOLVER` is not poisoned. -/
abbrev Refreshes.TimelyAt (n : Nat) (now : Int) (s : Refreshes) (t : Refresh) : Prop :=
  match t.pc with
  | .touch _ => s.state.file.isNone = true → s.state.NewSecond now
  | .store_resolver perf_map =>
    ∀ stored ∈ s.state.RESOLVER.stored, stored.revision ≤ perf_map.revision
  | .read (.init _) reader _ => ∀ f ∈ s.state.file, panics (reader.read f.content n) = false
  | _ => True

instance (n : Nat) (now : Int) (s : Refreshes) (t : Refresh) :
    Decidable (Refreshes.TimelyAt n now s t) := by
  obtain ⟨began,spawned,pc⟩ := t
  cases pc with
  | read job => cases job <;> infer_instance
  | _ => infer_instance

abbrev Refreshes.Timely (s : Refreshes) : RefreshStep → Prop
  | .modify _ mtime => s.state.NewSecond mtime
  | .go i n now => ∀ t ∈ s.threads[i]?, s.TimelyAt n now t
  | .get_resolver => True

instance (s : Refreshes) (l : RefreshStep) : Decidable (s.Timely l) := by
  cases l <;> infer_instance

end Pprof
