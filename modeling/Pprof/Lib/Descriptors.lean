import Mathlib.Data.List.Basic
import Mathlib.Logic.Function.Basic
set_option autoImplicit false

/-! Non-blocking pipes behind a table of descriptor numbers, which closing a number frees
for whoever opens the next descriptor. -/

namespace Pprof.Descriptors

/-- What an open descriptor refers to: an end of one of the pipes made in this table, or
anything else. -/
inductive End where
  | reader (pipe : Nat) | writer (pipe : Nat) | other
  deriving DecidableEq, Repr

inductive Errno where
  | EAGAIN | EBADF | EFAULT | EPIPE | other
  deriving DecidableEq, Repr

/-- `bytes` holds what is in each of the first `pipes` pipes. -/
structure Table where
  fds : List (Int × End)
  bytes : Nat → List UInt8
  pipes : Nat

namespace Table

def get (t : Table) (fd : Int) : Option End := t.fds.lookup fd

def has (t : Table) (e : End) : Bool := t.fds.any fun entry => entry.2 = e

def close (t : Table) (fd : Int) : Table := { t with fds := t.fds.filter fun entry => entry.1 ≠ fd }

def Unused (t : Table) (fd : Int) : Prop := 0 ≤ fd ∧ t.get fd = none

instance (t : Table) (fd : Int) : Decidable (t.Unused fd) := by unfold Unused; infer_instance

def open_other (t : Table) (fd : Int) : Option Table :=
  if t.Unused fd then some { t with fds := (fd,.other) :: t.fds } else none

def close_other (t : Table) (fd : Int) : Option Table :=
  if t.get fd = some .other then some (t.close fd) else none

/-- `created` holds the numbers of the ends, unless there are none left. -/
def pipe (t : Table) (created : Option (Int × Int)) : Option ((Int × Int) × Table) :=
  created.bind fun (r,w) =>
    if t.Unused r ∧ t.Unused w ∧ r ≠ w then
      some ((r,w),⟨(r,.reader t.pipes) :: (w,.writer t.pipes) :: t.fds,
        Function.update t.bytes t.pipes [],t.pipes+1⟩)
    else none

/-- `foreign` is the answer where the descriptor is no end of a pipe. -/
def read (t : Table) (fd : Int) (n : Nat) (foreign : Except Errno Nat) :
    Except Errno Nat × Table :=
  match t.get fd with
  | some (.reader p) =>
    if t.bytes p = [] then (if t.has (.writer p) then .error .EAGAIN else .ok 0,t)
    else (.ok ((t.bytes p).take n).length,
      { t with bytes := Function.update t.bytes p ((t.bytes p).drop n) })
  | some .other => (foreign,t)
  | some (.writer _) | none => (.error .EBADF,t)

/-- A write no longer than `PIPE_BUF` goes in whole or not at all; `data` is missing where
it cannot be read. -/
def write (t : Table) (capacity : Nat) (fd : Int) (data : Option (List UInt8))
    (foreign : Except Errno Nat) : Except Errno Nat × Table :=
  match t.get fd with
  | some (.writer p) =>
    if t.has (.reader p) then
      match data with
      | none => (.error .EFAULT,t)
      | some bytes =>
        if (t.bytes p).length + bytes.length ≤ capacity then
          (.ok bytes.length,{ t with bytes := Function.update t.bytes p (t.bytes p ++ bytes) })
        else (.error .EAGAIN,t)
    else (.error .EPIPE,t)
  | some .other => (foreign,t)
  | some (.reader _) | none => (.error .EBADF,t)

structure Piped (t : Table) (p : Nat) (r w : Int) : Prop where
  reader : t.get r = some (.reader p)
  writer : t.get w = some (.writer p)

theorem has_of_get {t : Table} {fd : Int} {e : End} (h : t.get fd = some e) : t.has e = true := by
  obtain ⟨l₁,l₂,hl,-⟩ := List.lookup_eq_some_iff.mp h
  simp [has,hl]

theorem get_cons (fds : List (Int × End)) (bytes : Nat → List UInt8) (n : Nat) (k fd : Int)
    (e : End) :
    get ⟨(k,e) :: fds,bytes,n⟩ fd = if fd = k then some e else get ⟨fds,bytes,n⟩ fd := by
  unfold get
  by_cases hf : fd = k
  · simp [hf]
  · have hb : (fd == k) = false := by simpa using hf
    rw [List.lookup_cons,hb,if_neg hf]

@[simp] theorem get_close (t : Table) (fd fd' : Int) :
    (t.close fd).get fd' = if fd' = fd then none else t.get fd' := by
  obtain ⟨fds,bytes,n⟩ := t
  induction fds with
  | nil => simp [get,close]
  | cons entry fds ih =>
    obtain ⟨k,e⟩ := entry
    by_cases hk : k = fd
    · subst k
      have hc : close ⟨(fd,e) :: fds,bytes,n⟩ fd = close ⟨fds,bytes,n⟩ fd := by simp [close]
      rw [hc,ih,get_cons]
      by_cases hf : fd' = fd <;> simp [hf]
    · have hc : close ⟨(k,e) :: fds,bytes,n⟩ fd =
          ⟨(k,e) :: (close ⟨fds,bytes,n⟩ fd).fds,bytes,n⟩ := by simp [close,hk]
      have hr : get ⟨(close ⟨fds,bytes,n⟩ fd).fds,bytes,n⟩ fd' =
          if fd' = fd then none else get ⟨fds,bytes,n⟩ fd' := ih
      rw [hc,get_cons,get_cons,hr]
      by_cases hf : fd' = k
      · simp [hf,hk]
      · simp [hf]

theorem close_of_get_none {t : Table} {fd : Int} (h : t.get fd = none) : t.close fd = t := by
  have hf : t.fds.filter (fun entry => entry.1 ≠ fd) = t.fds := by
    refine List.filter_eq_self.mpr fun entry he => ?_
    have hne := List.lookup_eq_none_iff.mp h entry he
    simpa using Ne.symm (by simpa using hne)
  unfold close
  rw [hf]

theorem open_other_eq {t t' : Table} {fd : Int} (h : t.open_other fd = some t') :
    t.Unused fd ∧ t' = { t with fds := (fd,.other) :: t.fds } := by
  unfold open_other at h
  split at h
  · rename_i hu
    cases h
    exact ⟨hu,rfl⟩
  · cases h

theorem close_other_eq {t t' : Table} {fd : Int} (h : t.close_other fd = some t') :
    t.get fd = some .other ∧ t' = t.close fd := by
  unfold close_other at h
  split at h
  · rename_i ho
    cases h
    exact ⟨ho,rfl⟩
  · cases h

structure Keeps (t t' : Table) : Prop where
  ends : ∀ fd e, e ≠ .other → t.get fd = some e → t'.get fd = some e
  negative : ∀ fd, fd < 0 → t.get fd = none → t'.get fd = none

structure Foreign (t t' : Table) : Prop extends Keeps t t' where
  bytes : t'.bytes = t.bytes
  pipes : t'.pipes = t.pipes

theorem Keeps.of_fds {t t' : Table} (h : t'.fds = t.fds) : t.Keeps t' := by
  have hget : ∀ fd, t'.get fd = t.get fd := fun fd => by rw [get,h,get]
  exact ⟨fun fd e _ he => by rw [hget,he],fun fd _ hn => by rw [hget,hn]⟩

theorem Keeps.piped {t t' : Table} (hk : t.Keeps t') {p : Nat} {r w : Int}
    (h : t.Piped p r w) : t'.Piped p r w :=
  ⟨hk.ends r (.reader p) nofun h.reader,hk.ends w (.writer p) nofun h.writer⟩

theorem open_other_foreign {t t' : Table} {fd : Int} (h : t.open_other fd = some t') :
    t.Foreign t' := by
  obtain ⟨⟨hfd,hnone⟩,rfl⟩ := open_other_eq h
  have hget : ∀ k, get { t with fds := (fd,.other) :: t.fds } k =
      if k = fd then some .other else t.get k := fun k =>
    get_cons t.fds t.bytes t.pipes fd k .other
  refine ⟨⟨fun k e _ hk => ?_,fun k hk hn => ?_⟩,rfl,rfl⟩
  · have hkf : k ≠ fd := by
      rintro rfl
      rw [hnone] at hk
      cases hk
    rw [hget,if_neg hkf,hk]
  · have hkf : k ≠ fd := by omega
    rw [hget,if_neg hkf,hn]

theorem pipe_eq {t t' : Table} {created : Option (Int × Int)} {r w : Int}
    (h : t.pipe created = some ((r,w),t')) :
    created = some (r,w) ∧ t.Unused r ∧ t.Unused w ∧ r ≠ w ∧
      t' = ⟨(r,.reader t.pipes) :: (w,.writer t.pipes) :: t.fds,
        Function.update t.bytes t.pipes [],t.pipes+1⟩ := by
  obtain ⟨⟨a,b⟩,rfl,ht⟩ := Option.bind_eq_some_iff.mp h
  simp only at ht
  split at ht
  · rename_i hu
    cases ht
    exact ⟨rfl,hu.1,hu.2.1,hu.2.2,rfl⟩
  · cases ht

theorem get_pipe {t t' : Table} {created : Option (Int × Int)} {r w : Int}
    (h : t.pipe created = some ((r,w),t')) (fd : Int) :
    t'.get fd = if fd = r then some (.reader t.pipes)
      else if fd = w then some (.writer t.pipes) else t.get fd := by
  obtain ⟨-,-,-,-,rfl⟩ := pipe_eq h
  rw [get_cons,get_cons]
  rfl

theorem pipe_piped {t t' : Table} {created : Option (Int × Int)} {r w : Int}
    (h : t.pipe created = some ((r,w),t')) : t'.Piped t.pipes r w := by
  obtain ⟨-,-,-,hne,-⟩ := pipe_eq h
  exact ⟨by simp [get_pipe h],by simp [get_pipe h,Ne.symm hne]⟩

theorem pipe_keeps {t t' : Table} {created : Option (Int × Int)} {r w : Int}
    (h : t.pipe created = some ((r,w),t')) : t.Keeps t' := by
  obtain ⟨-,⟨hr,hrn⟩,⟨hw,hwn⟩,-,-⟩ := pipe_eq h
  refine ⟨fun fd e _ hk => ?_,fun fd hfd hn => ?_⟩
  · have hfr : fd ≠ r := by
      rintro rfl
      rw [hrn] at hk
      cases hk
    have hfw : fd ≠ w := by
      rintro rfl
      rw [hwn] at hk
      cases hk
    rw [get_pipe h,if_neg hfr,if_neg hfw,hk]
  · have hfr : fd ≠ r := by omega
    have hfw : fd ≠ w := by omega
    rw [get_pipe h,if_neg hfr,if_neg hfw,hn]

theorem read_fds (t : Table) (fd : Int) (n : Nat) (foreign : Except Errno Nat) :
    (t.read fd n foreign).2.fds = t.fds := by
  unfold read
  split
  · split <;> rfl
  · rfl
  · rfl
  · rfl

theorem write_fds (t : Table) (capacity : Nat) (fd : Int) (data : Option (List UInt8))
    (foreign : Except Errno Nat) : (t.write capacity fd data foreign).2.fds = t.fds := by
  unfold write
  split
  · split
    · split
      · rfl
      · split <;> rfl
    · rfl
  · rfl
  · rfl
  · rfl

theorem close_other_foreign {t t' : Table} {fd : Int} (h : t.close_other fd = some t') :
    t.Foreign t' := by
  obtain ⟨ho,rfl⟩ := close_other_eq h
  refine ⟨⟨fun k e he hk => ?_,fun k _ hn => by simp [hn]⟩,rfl,rfl⟩
  have hkf : k ≠ fd := by
    rintro rfl
    rw [ho] at hk
    exact he (Option.some.inj hk).symm
  rw [get_close,if_neg hkf,hk]

theorem read_of_get_none {t : Table} {fd : Int} (h : t.get fd = none) (n : Nat)
    (foreign : Except Errno Nat) : t.read fd n foreign = (.error .EBADF,t) := by
  unfold read
  rw [h]

theorem Piped.read {t : Table} {p : Nat} {r w : Int} (h : t.Piped p r w) {n : Nat} (hn : 0 < n)
    (foreign : Except Errno Nat) :
    ∃ answer, (answer = .error .EAGAIN ∨ ∃ m, answer = .ok m ∧ 0 < m) ∧
      t.read r n foreign =
        (answer,{ t with bytes := Function.update t.bytes p ((t.bytes p).drop n) }) := by
  unfold Table.read
  rw [h.reader]
  by_cases hb : t.bytes p = []
  · have hu : Function.update t.bytes p ((t.bytes p).drop n) = t.bytes := by
      rw [hb,List.drop_nil,← hb,Function.update_eq_self]
    refine ⟨.error .EAGAIN,Or.inl rfl,?_⟩
    simp only [hb,if_true,has_of_get h.writer]
    rw [← hb,hu]
  · refine ⟨.ok ((t.bytes p).take n).length,Or.inr ⟨_,rfl,?_⟩,by simp only [hb,if_false]⟩
    have hpos := List.length_pos_of_ne_nil hb
    rw [List.length_take]
    omega

theorem Piped.write {t : Table} {p : Nat} {r w : Int} (h : t.Piped p r w) {capacity : Nat}
    {bytes : List UInt8} (hroom : (t.bytes p).length + bytes.length ≤ capacity)
    (foreign : Except Errno Nat) :
    t.write capacity w (some bytes) foreign =
      (.ok bytes.length,{ t with bytes := Function.update t.bytes p (t.bytes p ++ bytes) }) := by
  unfold Table.write
  rw [h.writer]
  simp only [has_of_get h.reader,if_true,hroom]

theorem Piped.write_unreadable {t : Table} {p : Nat} {r w : Int} (h : t.Piped p r w)
    (capacity : Nat) (foreign : Except Errno Nat) :
    t.write capacity w none foreign = (.error .EFAULT,t) := by
  unfold Table.write
  rw [h.writer]
  simp only [has_of_get h.reader,if_true]

end Table

end Pprof.Descriptors
