import Mathlib.Data.List.Basic
set_option autoImplicit false

/-! A temporary file that is written through one handle and read back through
handles opened anew. A handle has its own cursor; a write starts at the cursor
of its handle and may stop after any number of bytes. -/

namespace Pprof.TempFile

inductive IoError where
  | create | write | reopen | read | unexpectedEof | seek
  deriving DecidableEq, Repr

variable {Byte : Type}

structure NamedTempFile (Byte : Type) where
  content : List Byte
  pos : Nat

def NamedTempFile.new (fails : Bool) : Except IoError (NamedTempFile Byte) :=
  if fails then .error .create else .ok ⟨[],0⟩

def NamedTempFile.put (f : NamedTempFile Byte) (bs : List Byte) : NamedTempFile Byte :=
  ⟨f.content.take f.pos ++ bs ++ f.content.drop (f.pos+bs.length),f.pos+bs.length⟩

/-- `fault = some n`: the device takes `n` more bytes and then reports an error. -/
def NamedTempFile.write_all (f : NamedTempFile Byte) (bs : List Byte) (fault : Option Nat) :
    Except IoError Unit × NamedTempFile Byte :=
  match fault with
  | some n => if n < bs.length then (.error .write,f.put (bs.take n)) else (.ok (),f.put bs)
  | none => (.ok (),f.put bs)

inductive ReadFault where
  | reopen | read | seek
  deriving DecidableEq, Repr

structure File (Byte : Type) where
  content : List Byte
  pos : Nat

def NamedTempFile.reopen (f : NamedTempFile Byte) (fault : Option ReadFault) :
    Except IoError (File Byte) :=
  if fault = some .reopen then .error .reopen else .ok ⟨f.content,0⟩

def File.read_exact (f : File Byte) (n : Nat) (fault : Option ReadFault) :
    Except IoError (List Byte × File Byte) :=
  if fault = some .read then .error .read
  else if f.pos+n ≤ f.content.length then
    .ok ((f.content.drop f.pos).take n,{ f with pos := f.pos+n })
  else .error .unexpectedEof

def File.seek_end (f : File Byte) (fault : Option ReadFault) : Except IoError (File Byte) :=
  if fault = some .seek then .error .seek else .ok { f with pos := f.content.length }

theorem reopen_of_fault {f : NamedTempFile Byte} {fault : Option ReadFault} {file : File Byte}
    (h : f.reopen fault = .ok file) : f.reopen none = .ok file := by
  unfold NamedTempFile.reopen at h ⊢
  split at h
  · cases h
  · exact h

theorem read_exact_of_fault {f : File Byte} {n : Nat} {fault : Option ReadFault}
    {r : List Byte × File Byte} (h : f.read_exact n fault = .ok r) :
    f.read_exact n none = .ok r := by
  unfold File.read_exact at h ⊢
  split at h
  · cases h
  · exact h

theorem seek_end_of_fault {f f' : File Byte} {fault : Option ReadFault}
    (h : f.seek_end fault = .ok f') : f.seek_end none = .ok f' := by
  unfold File.seek_end at h ⊢
  split at h
  · cases h
  · exact h

/-- The writing handle has been used for appending only. -/
def NamedTempFile.Appending (f : NamedTempFile Byte) : Prop := f.pos = f.content.length

theorem Appending.put_content {f : NamedTempFile Byte} (h : f.Appending) (bs : List Byte) :
    (f.put bs).content = f.content ++ bs := by
  unfold NamedTempFile.Appending at h
  simp [NamedTempFile.put,h]

theorem Appending.put {f : NamedTempFile Byte} (h : f.Appending) (bs : List Byte) :
    (f.put bs).Appending := by
  have hc := Appending.put_content h bs
  unfold NamedTempFile.Appending at *
  rw [hc,List.length_append,← h]
  rfl

theorem Appending.write_all_error {f f' : NamedTempFile Byte} (h : f.Appending)
    {bs : List Byte} {fault : Option Nat} {e : IoError}
    (hw : f.write_all bs fault = (.error e,f')) :
    f'.Appending ∧ f'.content.length < f.content.length+bs.length := by
  unfold NamedTempFile.write_all at hw
  split at hw
  · rename_i n
    split at hw
    · cases hw
      refine ⟨Appending.put h _,?_⟩
      rw [Appending.put_content h,List.length_append,List.length_take]
      omega
    · cases hw
  · cases hw

theorem Appending.write_all_ok {f f' : NamedTempFile Byte} (h : f.Appending)
    {bs : List Byte} {fault : Option Nat} (hw : f.write_all bs fault = (.ok (),f')) :
    f'.Appending ∧ f'.content = f.content ++ bs := by
  have hput : f' = f.put bs := by
    unfold NamedTempFile.write_all at hw
    split at hw
    · split at hw <;> cases hw
      rfl
    · cases hw
      rfl
  rw [hput]
  exact ⟨Appending.put h bs,Appending.put_content h bs⟩

theorem Appending.write_all_le {f f' : NamedTempFile Byte} (h : f.Appending) {bs : List Byte}
    {fault : Option Nat} {r : Except IoError Unit} (hw : f.write_all bs fault = (r,f')) :
    f'.Appending ∧ f'.content.length ≤ f.content.length+bs.length := by
  cases r with
  | ok u =>
    obtain ⟨ha,hc⟩ := Appending.write_all_ok h hw
    exact ⟨ha,by simp [hc]⟩
  | error err =>
    obtain ⟨ha,hc⟩ := Appending.write_all_error h hw
    exact ⟨ha,Nat.le_of_lt hc⟩

end Pprof.TempFile
