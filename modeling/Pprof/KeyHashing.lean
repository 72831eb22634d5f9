import Pprof.Frames
set_option autoImplicit false

/-! The two kinds of stacks as keys of hash tables. Captured stacks have an equality and a hash
written by hand, of which only the first compares lengths; those of reported stacks are derived
over the ones of `Symbol`. -/

namespace Pprof
open DistinctKeys Utf8

section Captured
variable {F : Type} [Frame F]

/-- The thread id comes last and there is one only, so the lengths agree if the writes do. -/
theorem unresolved_hash_iff {a b : UnresolvedFrames F} :
    (a == b) = true ↔ a.hash = b.hash := by
  rw [unresolved_beq,hash_eq_key,hash_eq_key]
  constructor
  · intro h
    rw [h]
  · intro h
    obtain ⟨hframes,hthread⟩ := List.append_inj' h rfl
    have hinj : Function.Injective HashWrite.usize := fun _ _ he => HashWrite.usize.inj he
    have hid : a.key.1 = b.key.1 := by simpa using hthread
    exact Prod.ext hid (hinj.list_map hframes)

end Captured

/-- What a hasher is given for a reported stack. -/
inductive StackWrite where
  | usize (n : Nat)
  | bytes (bs : List UInt8)
  | u8 (n : UInt8)
  | u64 (n : UInt64)
  | i64 (n : Int)
  | u32 (n : Nat)
  deriving DecidableEq

def hashSlice {α : Type} (hash : α → List StackWrite) (xs : List α) : List StackWrite :=
  .usize xs.length :: xs.flatMap hash

def hashBytes (bs : List UInt8) : List StackWrite := [.usize bs.length,.bytes bs]

def hashStr (s : String) : List StackWrite := [.bytes (encode s.toList),.u8 255]

def SystemTime.hash (t : SystemTime) : List StackWrite := [.i64 t.tv_sec,.u32 t.tv_nsec]

def Symbol.hash (s : Symbol) : List StackWrite := hashBytes s.raw_name

def Frames.hash (f : Frames) : List StackWrite :=
  hashSlice (hashSlice Symbol.hash) f.frames ++ hashStr f.thread_name ++ [.u64 f.thread_id] ++
    f.sample_timestamp.hash

theorem hashSlice_map {α β : Type} (hash : β → List StackWrite) (f : α → β) (xs : List α) :
    hashSlice hash (xs.map f) = hashSlice (fun x => hash (f x)) xs := by
  rw [hashSlice,hashSlice,List.length_map,List.flatMap_map]

theorem hash_eq_stack (f : Frames) :
    f.hash = hashSlice (hashSlice hashBytes) f.stack.1 ++ hashStr f.stack.2.1 ++
      [.u64 f.stack.2.2] ++ f.sample_timestamp.hash := by
  simp only [Frames.stack,hashSlice_map]
  rfl

theorem frames_hash {a b : Frames} (h : (a == b) = true) : a.hash = b.hash := by
  obtain ⟨hstack,htime⟩ := Prod.mk.inj (frames_beq.mp h)
  rw [hash_eq_stack,hash_eq_stack,hstack,htime]

theorem unknown_bytes : [85,110,107,110,111,119,110] = encode "Unknown".toList := by decide

/-- Captured stacks are equal exactly if they hash alike, and reported stacks hash alike if they
are equal, whatever a post-processor made of them. -/
theorem equal_keys_hash_alike (F : Type) [Frame F] :
    (Equivalence (fun a b : UnresolvedFrames F => (a == b) = true) ∧
      ∀ a b : UnresolvedFrames F, (a == b) = true ↔ a.hash = b.hash) ∧
    (Equivalence (fun a b : Frames => (a == b) = true) ∧
      ∀ a b : Frames, (a == b) = true → a.hash = b.hash) ∧
    (∀ a b : Symbol, (a == b) = true ↔ a.raw_name = b.raw_name) ∧
    ∀ s : Symbol, ({ s with name := none } == { s with name := some (encode "Unknown".toList) }) :=
  ⟨⟨equivalence_of_equivBEq _,fun _ _ => unresolved_hash_iff⟩,
    ⟨equivalence_of_equivBEq _,fun _ _ => frames_hash⟩,fun _ _ => symbol_beq,
    fun _ => symbol_beq.mpr unknown_bytes⟩

end Pprof
