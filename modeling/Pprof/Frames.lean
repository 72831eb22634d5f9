import Pprof.Lib.DistinctKeys
import Pprof.Lib.Utf8
import Pprof.Machine
set_option autoImplicit false

/-! `frames.rs`: the stack as it is captured, the stack as it is reported, and the
conversion between them. The two are compared by different equalities: captured stacks by
the addresses of their functions, reported stacks by the names of their symbols. -/

namespace Pprof
open Utf8

def MAX_THREAD_NAME : Nat := 16

structure SystemTime where
  tv_sec : Int
  tv_nsec : Nat
  deriving DecidableEq, Repr

structure Symbol where
  name : Option (List UInt8)
  addr : Option UInt64
  lineno : Option UInt32
  filename : Option (List UInt8)
  deriving Repr

/-- A frame as an unwinder yields it. `resolve_symbol` lists what the callback is given,
converted to `Symbol`. -/
class Frame (F : Type) where
  ip : F → UInt64
  symbol_address : F → UInt64
  resolve_symbol : F → List Symbol

class Resolver where
  resolve_in_perfmap : UInt64 → Option Symbol
  demangle : String → String

export Frame (ip symbol_address resolve_symbol)
export Resolver (resolve_in_perfmap demangle)

inductive HashWrite where
  | usize (n : UInt64)
  | u64 (n : UInt64)
  deriving DecidableEq

/-- The standard hasher, as a function of what is written to it. -/
class DefaultHasher where
  finish : List HashWrite → UInt64

structure UnresolvedFrames (F : Type) where
  frames : List F
  thread_name : Vector UInt8 MAX_THREAD_NAME
  thread_name_length : Nat
  thread_id : UInt64
  sample_timestamp : SystemTime
  thread_name_length_le : thread_name_length ≤ MAX_THREAD_NAME

variable {F : Type}

/-- The time of a default is whenever it was made; no default is ever reported. -/
instance : Inhabited (UnresolvedFrames F) :=
  ⟨⟨[],Vector.replicate MAX_THREAD_NAME 0,0,0,⟨0,0⟩,Nat.zero_le _⟩⟩

def UnresolvedFrames.named (frames : List F) (tn : List UInt8) (thread_id : UInt64)
    (sample_timestamp : SystemTime) (h : tn.length ≤ MAX_THREAD_NAME) : UnresolvedFrames F :=
  ⟨frames,⟨(tn ++ List.replicate (MAX_THREAD_NAME-tn.length) 0).toArray,by simp; omega⟩,
    tn.length,thread_id,sample_timestamp,h⟩

def UnresolvedFrames.new (frames : List F) (tn : List UInt8) (thread_id : UInt64)
    (sample_timestamp : SystemTime) : Except Panic (UnresolvedFrames F) :=
  if h : tn.length ≤ MAX_THREAD_NAME then .ok (named frames tn thread_id sample_timestamp h)
  else .error .outOfBounds

section Captured
variable [Frame F]

def UnresolvedFrames.eq (a b : UnresolvedFrames F) : Bool :=
  if a.thread_id != b.thread_id || a.frames.length != b.frames.length then false
  else (a.frames.zip b.frames).all fun (s₁,s₂) => symbol_address s₁ == symbol_address s₂

instance : BEq (UnresolvedFrames F) := ⟨UnresolvedFrames.eq⟩

def UnresolvedFrames.hash (u : UnresolvedFrames F) : List HashWrite :=
  u.frames.map (fun frame => .usize (symbol_address frame)) ++ [.u64 u.thread_id]

instance [DefaultHasher] : Hashable (UnresolvedFrames F) := ⟨fun u => DefaultHasher.finish u.hash⟩

theorem zip_all_beq {α β : Type} [BEq β] [LawfulBEq β] (f : α → β) (l m : List α)
    (h : l.length = m.length) :
    ((l.zip m).all fun (a,b) => f a == f b) = true ↔ l.map f = m.map f := by
  induction l generalizing m with
  | nil =>
    cases m with
    | nil => simp
    | cons b m => simp at h
  | cons a l ih =>
    cases m with
    | nil => simp at h
    | cons b m =>
      have hi := ih m (by simpa using h)
      simp [hi]

def UnresolvedFrames.key (u : UnresolvedFrames F) : UInt64 × List UInt64 :=
  (u.thread_id,u.frames.map symbol_address)

theorem unresolved_beq {a b : UnresolvedFrames F} : (a == b) = true ↔ a.key = b.key := by
  change a.eq b = true ↔ _
  simp only [UnresolvedFrames.eq,UnresolvedFrames.key,Prod.mk.injEq]
  by_cases ht : a.thread_id = b.thread_id
  · by_cases hl : a.frames.length = b.frames.length
    · simp [ht,hl,zip_all_beq symbol_address _ _ hl]
    · have hm : ¬ a.frames.map symbol_address = b.frames.map symbol_address := fun h =>
        hl (by simpa using congrArg List.length h)
      simp [ht,hl,hm]
  · simp [ht]

instance : EquivBEq (UnresolvedFrames F) := DistinctKeys.equivBEq_of_key unresolved_beq

theorem hash_eq_key (u : UnresolvedFrames F) :
    u.hash = u.key.2.map HashWrite.usize ++ [.u64 u.key.1] := by
  rw [UnresolvedFrames.hash,UnresolvedFrames.key,List.map_map]
  rfl

instance [DefaultHasher] : LawfulHashable (UnresolvedFrames F) where
  hash_eq a b h := by
    have hw : a.hash = b.hash := by
      rw [hash_eq_key,hash_eq_key,unresolved_beq.mp h]
    exact congrArg DefaultHasher.finish hw

end Captured

/-- A symbol without a name goes by `b"Unknown"`. -/
def Symbol.raw_name (s : Symbol) : List UInt8 := s.name.getD [85,110,107,110,111,119,110]

instance : BEq Symbol := ⟨fun a b => a.raw_name == b.raw_name⟩

theorem symbol_beq {a b : Symbol} : (a == b) = true ↔ a.raw_name = b.raw_name := by
  change (a.raw_name == b.raw_name) = true ↔ _
  exact beq_iff_eq

def Symbol.get_name [Resolver] (s : Symbol) : String := demangle (from_utf8_lossy s.raw_name)

def Symbol.sys_name (s : Symbol) : String := from_utf8_lossy s.raw_name

def Symbol.get_filename (s : Symbol) : String := (s.filename.map from_utf8_lossy).getD "Unknown"

def Symbol.get_lineno (s : Symbol) : UInt32 := s.lineno.getD 0

structure Frames where
  frames : List (List Symbol)
  thread_name : String
  thread_id : UInt64
  sample_timestamp : SystemTime

instance : BEq Frames := ⟨fun a b => a.frames == b.frames && a.thread_name == b.thread_name &&
  a.thread_id == b.thread_id && a.sample_timestamp == b.sample_timestamp⟩

def Frames.thread_name_or_id (f : Frames) : String :=
  if f.thread_name.isEmpty then toString f.thread_id.toNat else f.thread_name

/-- What a report says about a stack: the names of its symbols frame by frame, and its thread. -/
def Frames.stack (f : Frames) : List (List (List UInt8)) × String × UInt64 :=
  (f.frames.map fun symbols => symbols.map Symbol.raw_name,f.thread_name,f.thread_id)

theorem list_beq_key {α β : Type} [BEq α] {f : α → β}
    (h : ∀ {a b : α}, (a == b) = true ↔ f a = f b) {l m : List α} :
    (l == m) = true ↔ l.map f = m.map f := by
  induction l generalizing m with
  | nil => cases m <;> simp
  | cons a l ih => cases m <;> simp [h,ih]

theorem frames_beq {a b : Frames} :
    (a == b) = true ↔ (a.stack,a.sample_timestamp) = (b.stack,b.sample_timestamp) := by
  change (a.frames == b.frames && a.thread_name == b.thread_name &&
    a.thread_id == b.thread_id && a.sample_timestamp == b.sample_timestamp) = true ↔ _
  simp only [Bool.and_eq_true,list_beq_key (list_beq_key symbol_beq),beq_iff_eq,Frames.stack,
    Prod.mk.injEq]
  tauto

instance : EquivBEq Frames := DistinctKeys.equivBEq_of_key frames_beq

section Conversion
variable [Frame F] [Resolver]

def symbolsOf (frame : F) : List Symbol :=
  match resolve_in_perfmap (ip frame) with
  | some perfmap_symbol => [perfmap_symbol]
  | none => resolve_symbol frame

def isHandler (symbols : List Symbol) : Bool :=
  symbols.any fun symbol =>
    symbol.get_name == "perf_signal_handler" || symbol.get_name == "_perf_signal_handler"

/-- The loop of `Frames::from`: a frame of the handler is dropped with the one after it. -/
def resolveFrames : List F → List (List Symbol)
  | [] => []
  | frame :: rest =>
    if isHandler (symbolsOf frame) then
      match rest with
      | [] => []
      | _ :: rest => resolveFrames rest
    else if (symbolsOf frame).isEmpty then resolveFrames rest
    else symbolsOf frame :: resolveFrames rest

def Frames.from (u : UnresolvedFrames F) : Frames where
  frames := resolveFrames u.frames
  thread_name := from_utf8_lossy (u.thread_name.toList.take u.thread_name_length)
  thread_id := u.thread_id
  sample_timestamp := u.sample_timestamp

end Conversion

end Pprof
