import Pprof.ValidateRaces
set_option autoImplicit false

/-! The steps of a call, taken one after the other, are the call of `validate` as a whole. -/

namespace Pprof
open Descriptors Runs Sharing

section Alone
variable {capacity : Nat} {created : Option (Int × Int)} {foreign : Except Errno Nat}
variable {ts : List Validating}

def Leads (capacity : Nat) (created : Option (Int × Int)) (foreign : Except Errno Nat)
    (ts : List Validating) (x y : Process × Validating) : Prop :=
  ∃ n, run (Validators.step capacity) ⟨x.1,ts ++ [x.2]⟩
    (List.replicate n (.go ts.length created foreign)) = some ⟨y.1,ts ++ [y.2]⟩

theorem Leads.refl (x : Process × Validating) : Leads capacity created foreign ts x x := ⟨0,rfl⟩

theorem Leads.trans {x y z : Process × Validating} (h : Leads capacity created foreign ts x y)
    (h' : Leads capacity created foreign ts y z) : Leads capacity created foreign ts x z := by
  obtain ⟨n,hn⟩ := h
  obtain ⟨m,hm⟩ := h'
  refine ⟨n+m,?_⟩
  rw [List.replicate_add,run_append_some hn,hm]

theorem Leads.step {x y : Process × Validating}
    (h : x.1.next capacity created foreign x.2 = some y) :
    Leads capacity created foreign ts x y := by
  have hlast : (ts ++ [x.2])[ts.length]? = some x.2 := by simp
  have hset : (ts ++ [x.2]).set ts.length y.2 = ts ++ [y.2] := by simp
  refine ⟨1,?_⟩
  simp only [List.replicate_one,run_cons,Validators.step,Shared.go,hlast,Option.bind_some,h,
    Option.map_some,hset,run_nil]

variable {s : Process} {access : Access}

theorem leads_read (fd : Int) :
    Leads capacity created foreign ts (s,⟨access,.read fd⟩)
      ({ s with table := (valid_read s.table fd foreign 0).2 },
        ⟨access,if (valid_read s.table fd foreign 0).1 then .load_write_fd
          else .load_old_read_fd⟩) := by
  apply Leads.step
  obtain ⟨answer,table,hr⟩ : ∃ answer table,
      s.table.read fd CHECK_LENGTH foreign = (answer,table) := ⟨_,_,rfl⟩
  simp only [Process.next,valid_read,hr]
  cases answer with
  | ok bytes => simp
  | error err => cases err <;> rfl

def opened (access : Access) : Except Errno Unit → Validating
  | .ok () => ⟨access,.load_write_fd⟩
  | .error _ => ⟨access,.returned false true⟩

theorem leads_open :
    Leads capacity created foreign ts (s,⟨access,.load_old_read_fd⟩)
      ((open_pipe s created).2,opened access (open_pipe s created).1) := by
  let closed := (s.table.close s.MEM_VALIDATE_PIPE.read_fd).close s.MEM_VALIDATE_PIPE.write_fd
  have hclose : Leads capacity created foreign ts (s,⟨access,.load_old_read_fd⟩)
      ({ s with table := closed },⟨access,.create_pipe⟩) :=
    (Leads.step rfl).trans ((Leads.step rfl).trans ((Leads.step rfl).trans (Leads.step rfl)))
  refine hclose.trans ?_
  cases hp : closed.pipe created with
  | none =>
    have hopen : open_pipe s created = (.error .other,{ s with table := closed }) := by
      simp only [open_pipe,closed,hp]
    rw [hopen]
    exact .step (by simp only [Process.next,hp]; rfl)
  | some made =>
    obtain ⟨⟨r,w⟩,table⟩ := made
    have hopen : open_pipe s created = (.ok (),⟨⟨r,w⟩,table⟩) := by
      simp only [open_pipe,closed,hp]
    have hcreate : Leads capacity created foreign ts
        ({ s with table := closed },⟨access,.create_pipe⟩)
        ({ s with table := table },⟨access,.store_read_fd r w⟩) :=
      .step (by simp only [Process.next,hp])
    rw [hopen]
    exact hcreate.trans ((Leads.step rfl).trans (Leads.step rfl))

theorem leads_write :
    Leads capacity created foreign ts (s,⟨access,.load_write_fd⟩)
      ({ s with table := (valid_write capacity s.table s.MEM_VALIDATE_PIPE.write_fd access.slice
        foreign 0).2 },⟨access,.returned (valid_write capacity s.table
          s.MEM_VALIDATE_PIPE.write_fd access.slice foreign 0).1 false⟩) := by
  refine (Leads.step rfl).trans (Leads.step ?_)
  obtain ⟨answer,table,hw⟩ : ∃ answer table, s.table.write capacity
      s.MEM_VALIDATE_PIPE.write_fd access.slice foreign = (answer,table) := ⟨_,_,rfl⟩
  simp only [Process.next,valid_write,hw]
  cases answer <;> rfl

theorem leads_ready {c : Validate} :
    Leads capacity c.created c.foreign ts (s,⟨c.access,.load_read_fd⟩)
      ((s.ready c).2,opened c.access (s.ready c).1) := by
  have hload : Leads capacity c.created c.foreign ts (s,⟨c.access,.load_read_fd⟩)
      (s,⟨c.access,.read s.MEM_VALIDATE_PIPE.read_fd⟩) := .step rfl
  refine (hload.trans (leads_read _)).trans ?_
  obtain ⟨valid,table,hv⟩ : ∃ valid table, valid_read s.table s.MEM_VALIDATE_PIPE.read_fd
      c.foreign 0 = (valid,table) := ⟨_,_,rfl⟩
  have hread := valid_read_eq s.table s.MEM_VALIDATE_PIPE.read_fd c.foreign c.read_interrupts
  rw [Process.ready,hread,hv]
  cases valid with
  | true => exact .refl _
  | false => exact leads_open

end Alone

/-- A call whose steps nobody comes between answers and leaves behind what `validate` does. -/
theorem validate_alone (capacity : Nat) (s : Process) (ts : List Validating) (c : Validate) :
    ∃ n create_failed, run (Validators.step capacity) ⟨s,ts⟩
        (.call c.access :: List.replicate n (.go ts.length c.created c.foreign)) =
      some ⟨(s.validate capacity c).2,
        ts ++ [⟨c.access,.returned (s.validate capacity c).1 create_failed⟩]⟩ := by
  unfold Process.validate
  by_cases h0 : c.access.addr = 0
  · refine ⟨0,false,?_⟩
    simp only [h0,if_true,List.replicate_zero,run_cons,Validators.step,Shared.spawn]
    rfl
  · have hcall : Validators.step capacity ⟨s,ts⟩ (.call c.access) =
        some ⟨s,ts ++ [⟨c.access,.load_read_fd⟩]⟩ := by
      simp only [Validators.step,h0,if_false]
      rfl
    simp only [h0,if_false,run_cons_some hcall]
    have hready : Leads capacity c.created c.foreign ts (s,⟨c.access,.load_read_fd⟩)
        ((s.ready c).2,opened c.access (s.ready c).1) := leads_ready
    cases hr : s.ready c with
    | mk result s' =>
      rw [hr] at hready
      cases result with
      | error err =>
        obtain ⟨n,hn⟩ := hready
        exact ⟨n,true,hn⟩
      | ok u =>
        obtain ⟨n,hn⟩ := hready.trans leads_write
        have hwrite := valid_write_eq capacity s'.table s'.MEM_VALIDATE_PIPE.write_fd
          c.access.slice c.foreign c.write_interrupts
        refine ⟨n,false,?_⟩
        simp only [hwrite]
        exact hn

end Pprof
