import Mathlib
import Pprof.Lib.Separated
import Pprof.Report
set_option autoImplicit false

/-! The lines that `Report::flamegraph_with_options` of `report.rs` makes for the flamegraph,
and what their reader makes of them. -/

namespace Pprof
open Separated

section Lines
variable [Resolver]

def folded_line (key : Frames) (value : Int) : String :=
  let line := key.thread_name_or_id.toList ++ [';']
  let line := key.frames.reverse.foldl (fun line frame =>
    frame.reverse.foldl (fun line symbol => line ++ (symbol.get_name.toList ++ [';'])) line) line
  String.ofList (line.dropLast ++ ' ' :: (toString value).toList)

def folded_lines (iter : List (Frames × Int)) : List String :=
  iter.map fun (key,value) => folded_line key value

/-- The count is what follows the last space; what is before it is split at each semicolon. -/
def read_folded (line : String) : Option (List String × Int) := do
  let (stack,count) ← splitLast ' ' line.toList
  let count ← (String.ofList count).toInt?
  pure ((stack.splitOn ';').map String.ofList,count)

def Frames.folded (key : Frames) : List String :=
  key.thread_name_or_id ::
    key.frames.reverse.flatMap fun frame => frame.reverse.map Symbol.get_name

def Frames.stack_text (key : Frames) : List Char := [';'].intercalate (key.folded.map String.toList)

theorem foldl_names (symbols : List Symbol) (line : List Char) :
    symbols.foldl (fun line symbol => line ++ (symbol.get_name.toList ++ [';'])) line =
      line ++ (symbols.map Symbol.get_name).flatMap fun name => name.toList ++ [';'] := by
  induction symbols generalizing line with
  | nil => simp
  | cons symbol symbols ih => simp [ih]

theorem foldl_frames (frames : List (List Symbol)) (line : List Char) :
    frames.foldl (fun line frame => frame.reverse.foldl
      (fun line symbol => line ++ (symbol.get_name.toList ++ [';'])) line) line =
      line ++ (frames.flatMap fun frame => frame.reverse.map Symbol.get_name).flatMap
        fun name => name.toList ++ [';'] := by
  induction frames generalizing line with
  | nil => simp
  | cons frame frames ih =>
    rw [List.foldl_cons,ih,foldl_names,List.flatMap_cons,List.flatMap_append,List.append_assoc]

theorem folded_line_eq (key : Frames) (value : Int) :
    (folded_line key value).toList = key.stack_text ++ ' ' :: (toString value).toList := by
  have hline : key.thread_name_or_id.toList ++ [';'] ++
      (key.frames.reverse.flatMap fun frame => frame.reverse.map Symbol.get_name).flatMap
        (fun name => name.toList ++ [';']) =
      (key.folded.map String.toList).flatMap fun l => l ++ [';'] := by
    simp [Frames.folded,List.flatMap_map]
  simp only [folded_line,foldl_frames,hline,String.toList_ofList]
  rw [dropLast_flatMap ';' (by simp [Frames.folded])]
  rfl

omit [Resolver] in
theorem space_not_mem_digits (n : Nat) : ' ' ∉ Nat.toDigits 10 n := by
  intro h
  have hd := Nat.isDigit_of_mem_toDigits (by decide) (by decide) h
  cases hd

omit [Resolver] in
theorem space_not_mem_count (value : Int) : ' ' ∉ (toString value).toList := by
  rw [Int.toString_eq_repr,Int.repr_eq_if]
  split <;> simp [space_not_mem_digits]

theorem read_folded_line (key : Frames) (value : Int) :
    read_folded (folded_line key value) =
      some ((key.stack_text.splitOn ';').map String.ofList,value) := by
  have hlast := splitLast_append key.stack_text (space_not_mem_count value)
  have hcount : (String.ofList (toString value).toList).toInt? = some value := by
    rw [String.ofList_toList,Int.toString_eq_repr,Int.toInt?_repr]
  simp only [read_folded,folded_line_eq,hlast,hcount,Option.bind_eq_bind,Option.bind_some]
  rfl

/-- The separator is in no part of the stack. -/
def Frames.Separable (key : Frames) : Prop := ∀ part ∈ key.folded, ';' ∉ part.toList

instance (key : Frames) : Decidable key.Separable :=
  inferInstanceAs (Decidable (∀ part ∈ key.folded, ';' ∉ part.toList))

theorem folded_ne_nil (key : Frames) : key.folded.map String.toList ≠ [] := by simp [Frames.folded]

theorem separable_iff (key : Frames) :
    key.stack_text.splitOn ';' = key.folded.map String.toList ↔ key.Separable := by
  rw [Frames.stack_text,splitOn_intercalate_iff (folded_ne_nil key)]
  simp [Frames.Separable]

theorem reads_back_iff (key : Frames) (value : Int) :
    read_folded (folded_line key value) = some (key.folded,value) ↔ key.Separable := by
  have hchars : (key.stack_text.splitOn ';').map String.ofList = key.folded ↔
      key.stack_text.splitOn ';' = key.folded.map String.toList := by
    constructor
    · intro h
      rw [← h,List.map_map]
      simp
    · intro h
      rw [h,List.map_map]
      simp
  rw [read_folded_line,Option.some.injEq,Prod.mk.injEq,eq_self,and_true,hchars,separable_iff]

theorem folded_lines_iff (iter : List (Frames × Int)) :
    (folded_lines iter).map read_folded = iter.map (fun e => some (e.1.folded,e.2)) ↔
      ∀ e ∈ iter, e.1.Separable := by
  simp only [folded_lines,List.map_map,List.map_inj_left,Function.comp,reads_back_iff]

/-- A line is read back as its entry just if the separator is in no part of the stack, and
of two such stacks that differ the texts differ. -/
theorem folded_lines_read_back (key : Frames) :
    (∀ value, read_folded (folded_line key value) = some (key.folded,value) ↔ key.Separable) ∧
      ∀ key' : Frames, key.Separable → key'.Separable → key.stack_text = key'.stack_text →
        key.folded = key'.folded := by
  refine ⟨reads_back_iff key,fun key' h h' htext => ?_⟩
  have hs := (separable_iff key).mpr h
  rw [htext,(separable_iff key').mpr h'] at hs
  have hinj : Function.Injective String.toList := fun _ _ h => String.toList_injective h
  exact List.map_injective_iff.mpr hinj hs.symm

end Lines

def arrayStack : Frames where
  frames := [[⟨some [60,91,117,56,59,32,51,50,93,62,58,58,109,97,112],none,none,none⟩]]
  thread_name := "main"
  thread_id := 1
  sample_timestamp := ⟨0,0⟩

def mapStack : Frames := { arrayStack with
  frames := [[⟨some [109,97,112],none,none,none⟩]] }

theorem folded_lines_read_back_map :
    letI := plainResolver
    read_folded (folded_line mapStack 3) = some (mapStack.folded,3) ∧
      mapStack.folded = ({ mapStack with thread_id := 2 } : Frames).folded := by
  let _ := plainResolver
  obtain ⟨hread,htext⟩ := folded_lines_read_back mapStack
  exact ⟨(hread 3).mpr (by decide),htext _ (by decide) (by decide) rfl⟩

/-- The array type is taken for two frames. -/
theorem array_not_read_back :
    letI := plainResolver
    read_folded (folded_line arrayStack 1) = some (["main","<[u8"," 32]>::map"],1) ∧
      read_folded (folded_line arrayStack 1) ≠ some (arrayStack.folded,1) := by
  let _ := plainResolver
  rw [read_folded_line]
  decide

end Pprof
