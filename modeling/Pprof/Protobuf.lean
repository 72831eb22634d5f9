import Pprof.Lib.AssocMap
import Pprof.Report
set_option autoImplicit false

/-! `Report::pprof` of `report.rs` and the messages of `proto/profile.proto` that it fills.
Fields it leaves at their defaults are left out where a default says nothing. -/

namespace Pprof
open Assoc

namespace Protos

structure ValueType where
  ty : Nat
  unit : Nat
  deriving DecidableEq

structure Label where
  key : Nat
  str : Nat
  deriving DecidableEq

structure Sample where
  location_id : List Nat
  value : List Int
  label : List Label
  deriving DecidableEq

structure Line where
  function_id : Nat
  line : Int
  deriving DecidableEq

structure Location where
  id : Nat
  line : List Line
  deriving DecidableEq

structure Function where
  id : Nat
  name : Nat
  system_name : Nat
  filename : Nat
  deriving DecidableEq

structure Profile where
  sample_type : List ValueType
  sample : List Sample
  location : List Location
  function : List Function
  string_table : List String
  time_nanos : Int
  duration_nanos : Int
  period_type : Option ValueType
  period : Int
  deriving DecidableEq

end Protos

open Protos

def SAMPLES : String := "samples"
def COUNT : String := "count"
def CPU : String := "cpu"
def NANOSECONDS : String := "nanoseconds"
def THREAD : String := "thread"

/-- The symbols of a stack as the nested loops meet them: from the leaf on, and within a
frame from the innermost inlined function on. -/
def Frames.symbols (f : Frames) : List Symbol := f.frames.flatten

section Strings
variable [Resolver]

def stringsOf (key : Frames) : List String :=
  key.thread_name_or_id ::
    key.symbols.flatMap fun symbol => [symbol.get_name,symbol.sys_name,symbol.get_filename]

def dedup_str (keys : List Frames) : List String :=
  (keys.flatMap stringsOf ++ [SAMPLES,COUNT,CPU,NANOSECONDS,THREAD]).dedup

/-- The orders in which the hash map and the hash set happen to be iterated. -/
structure Iterated (r : Report) where
  keys : List Frames
  iter : List (Frames × Int)
  strings : List String
  keys_perm : keys.Perm (r.data.entries.map Prod.fst)
  iter_perm : iter.Perm r.data.entries
  strings_perm : strings.Perm (dedup_str keys)

def str_tbl {r : Report} (o : Iterated r) : List String := "" :: o.strings

def unwrap {α : Type} : Option α → Except Panic α
  | some a => .ok a
  | none => .error .unwrapNone

structure Tables where
  fn_tbl : List Function
  loc_tbl : List Location
  functions : AssocMap String Nat

/-- The body of the innermost loop: the location of a symbol, which is made for the first
symbol of a name. -/
def Tables.locate (strings : AssocMap String Nat) (t : Tables) (symbol : Symbol) :
    Except Panic (Tables × Nat) :=
  match t.functions.get symbol.get_name with
  | some loc_idx => pure (t,loc_idx)
  | none => do
    let function_id := t.fn_tbl.length+1
    let name ← unwrap (strings.get symbol.get_name)
    let system_name ← unwrap (strings.get symbol.sys_name)
    let filename ← unwrap (strings.get symbol.get_filename)
    pure (⟨t.fn_tbl ++ [⟨function_id,name,system_name,filename⟩],
      t.loc_tbl ++ [⟨function_id,[⟨function_id,symbol.get_lineno.toNat⟩]⟩],
      (t.functions.insert symbol.get_name function_id).2⟩,function_id)

def Tables.locateAll (strings : AssocMap String Nat) :
    Tables → List Symbol → Except Panic (Tables × List Nat)
  | t, [] => pure (t,[])
  | t, symbol :: symbols => do
    let (t,loc) ← t.locate strings symbol
    let (t,locs) ← t.locateAll strings symbols
    pure (t,loc :: locs)

def sampleOf (strings : AssocMap String Nat) (timing : ReportTiming) (key : Frames) (count : Int)
    (locs : List Nat) : Except Panic Protos.Sample := do
  let thread ← unwrap (strings.get THREAD)
  let str ← unwrap (strings.get key.thread_name_or_id)
  let nanos ← mulI64 count 1000000000
  let nanos ← divI64 nanos timing.frequency.toInt
  pure ⟨locs,[count,nanos],[⟨thread,str⟩]⟩

def samplesOf (strings : AssocMap String Nat) (timing : ReportTiming) :
    Tables → List (Frames × Int) → Except Panic (Tables × List Protos.Sample)
  | t, [] => pure (t,[])
  | t, (key,count) :: entries => do
    let (t,locs) ← t.locateAll strings key.symbols
    let sample ← sampleOf strings timing key count locs
    let (t,samples) ← samplesOf strings timing t entries
    pure (t,sample :: samples)

def SystemTime.nanos (t : SystemTime) : Nat :=
  if t.tv_sec < 0 then 0 else t.tv_sec.toNat*1000000000+t.tv_nsec

/-- It never returns an error. -/
def Report.pprof (r : Report) (o : Iterated r) : Except Panic Profile := do
  let strings := indexed (str_tbl o)
  let (t,samples) ← samplesOf strings r.timing ⟨[],[],AssocMap.empty⟩ o.iter
  let ty ← unwrap (strings.get SAMPLES)
  let unit ← unwrap (strings.get COUNT)
  let time_ty ← unwrap (strings.get CPU)
  let time_unit ← unwrap (strings.get NANOSECONDS)
  let period ← divI64 1000000000 r.timing.frequency.toInt
  pure ⟨[⟨ty,unit⟩,⟨time_ty,time_unit⟩],samples,t.loc_tbl,t.fn_tbl,str_tbl o,
    asI64 r.timing.start_time.nanos,asI64 r.timing.duration,some ⟨time_ty,time_unit⟩,period⟩

end Strings

end Pprof
