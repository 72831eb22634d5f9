import Pprof.Lib.AssocMap
import Pprof.Profiler
set_option autoImplicit false

/-! `report.rs`: the collector's entries gathered in a hash map, under the captured
stacks themselves or under what they convert to. -/

namespace Pprof
open Assoc Iteration Memory TempFile

def countInto {K : Type} [BEq K] (hash_map : AssocMap K Int) (key : K) (count : Int) :
    Except Panic (AssocMap K Int) :=
  match hash_map.get key with
  | some value => do
    let value ← addIsize value count
    pure (hash_map.set key value)
  | none =>
    match hash_map.insert key count with
    | (none,hash_map) => pure hash_map
    | (some _,_) => .error .unreachable

variable {F : Type} [Frame F]

structure UnresolvedReport (F : Type) [Frame F] where
  data : AssocMap (UnresolvedFrames F) Int
  timing : ReportTiming

structure Report where
  data : AssocMap Frames Int
  timing : ReportTiming

def gatherUnresolved : List (Entry (UnresolvedFrames F)) → AssocMap (UnresolvedFrames F) Int →
    Except Panic (AssocMap (UnresolvedFrames F) Int)
  | [], hash_map => pure hash_map
  | entry :: entries, hash_map =>
    if 0 < entry.count then do
      let hash_map ← countInto hash_map entry.item entry.count
      gatherUnresolved entries hash_map
    else gatherUnresolved entries hash_map

def gather [Resolver] {σ : Type} (processor : Option (Frames → σ → Frames × σ)) :
    List (Entry (UnresolvedFrames F)) → σ → AssocMap Frames Int →
    Except Panic (AssocMap Frames Int)
  | [], _, hash_map => pure hash_map
  | entry :: entries, s, hash_map =>
    if 0 < entry.count then
      let (key,s) := match processor with
        | some processor => processor (Frames.from entry.item) s
        | none => (Frames.from entry.item,s)
      do
        let hash_map ← countInto hash_map key entry.count
        gather processor entries s hash_map
    else gather processor entries s hash_map

/-- A post-processor may keep a state of its own between calls. -/
structure ReportBuilder (F σ : Type) [Layout (Entry (UnresolvedFrames F))] [Target] where
  frames_post_processor : Option (Frames → σ → Frames × σ)
  profiler : Except Error (Profiler F)
  timing : ReportTiming

variable [Layout (Entry (UnresolvedFrames F))] [Target]

def ReportBuilder.new {σ : Type} (profiler : Except Error (Profiler F)) (timing : ReportTiming) :
    ReportBuilder F σ := ⟨none,profiler,timing⟩

def ReportBuilder.build_unresolved {σ : Type} (b : ReportBuilder F σ) (fault : Option ReadFault) :
    Except Panic (Except Error (UnresolvedReport F)) :=
  match b.profiler with
  | .error _ => .ok (.error .CreatingError)
  | .ok profiler =>
    match profiler.data.try_iter fault with
    | .error err => .ok (.error (.IoError err))
    | .ok it => do
      let data ← gatherUnresolved (collect it) AssocMap.empty
      pure (.ok ⟨data,b.timing⟩)

/-- `s` is the state in which the post-processor is met. -/
def ReportBuilder.build [Resolver] {σ : Type} (b : ReportBuilder F σ) (s : σ)
    (fault : Option ReadFault) : Except Panic (Except Error Report) :=
  match b.profiler with
  | .error _ => .ok (.error .CreatingError)
  | .ok profiler =>
    match profiler.data.try_iter fault with
    | .error err => .ok (.error (.IoError err))
    | .ok it => do
      let data ← gather b.frames_post_processor (collect it) s AssocMap.empty
      pure (.ok ⟨data,b.timing⟩)

end Pprof
