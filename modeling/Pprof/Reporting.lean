import Pprof.Interleaving
import Pprof.Lib.Projection
set_option autoImplicit false

/-! Reports entry by entry, among the handlers and the other calls. `build_unresolved` has the
lock for reading, so that several can be under way, and `build` for writing. The iterator
borrows the buckets and the buffer: each `next` finds them as they are then. -/

namespace Pprof
open Assoc Iteration Memory Runs TempFile

section Calls
variable {F σ : Type} [Layout (Entry (UnresolvedFrames F))] [Target] [Frame F]

inductive ReportCall (σ : Type) where
  | build_unresolved (timing : ReportTiming) (fault : Option ReadFault)
  | build (processor : Option (Frames → σ → Frames × σ)) (s : σ) (timing : ReportTiming)
      (fault : Option ReadFault)

def ReportCall.fault : ReportCall σ → Option ReadFault
  | .build_unresolved _ fault => fault
  | .build _ _ _ fault => fault

def ReportCall.exclusive : ReportCall σ → Bool
  | .build_unresolved .. => false
  | .build .. => true

inductive Outcome (F : Type) [Frame F] where
  | unresolved (r : Except Panic (Except Error (UnresolvedReport F)))
  | report (r : Except Panic (Except Error Report))

/-- The report that a call makes if nothing comes between its steps. -/
def ReportCall.atomic [Resolver] (profiler : Except Error (Profiler F)) :
    ReportCall σ → Outcome F
  | .build_unresolved timing fault =>
    .unresolved ((⟨none,profiler,timing⟩ : ReportBuilder F σ).build_unresolved fault)
  | .build processor s timing fault =>
    .report ((⟨processor,profiler,timing⟩ : ReportBuilder F σ).build s fault)

def Profiler.entries (p : Profiler F)
    (file_vec : List (Layout.Byte (Entry (UnresolvedFrames F)))) :
    Chain (Boxed (BucketIterator (UnresolvedFrames F)))
      (TempFdArrayIterator (Entry (UnresolvedFrames F))) :=
  chain p.data.map.iter ⟨p.data.temp_array.buffered,file_vec,0⟩

/-- A report past its `try_iter` and `index` entries. -/
inductive ReportRun (F σ : Type) [Layout (Entry (UnresolvedFrames F))] [Frame F] where
  | build_unresolved (timing : ReportTiming)
      (file_vec : List (Layout.Byte (Entry (UnresolvedFrames F)))) (index : Nat)
      (hash_map : AssocMap (UnresolvedFrames F) Int)
  | build (processor : Option (Frames → σ → Frames × σ)) (s : σ) (timing : ReportTiming)
      (file_vec : List (Layout.Byte (Entry (UnresolvedFrames F)))) (index : Nat)
      (hash_map : AssocMap Frames Int)

def ReportCall.enter (profiler : Except Error (Profiler F)) :
    ReportCall σ → ReportRun F σ ⊕ Outcome F
  | .build_unresolved timing fault =>
    match profiler with
    | .error _ => .inr (.unresolved (.ok (.error .CreatingError)))
    | .ok p =>
      match p.data.try_iter fault with
      | .error err => .inr (.unresolved (.ok (.error (.IoError err))))
      | .ok it => .inl (.build_unresolved timing it.b.file_vec 0 AssocMap.empty)
  | .build processor s timing fault =>
    match profiler with
    | .error _ => .inr (.report (.ok (.error .CreatingError)))
    | .ok p =>
      match p.data.try_iter fault with
      | .error err => .inr (.report (.ok (.error (.IoError err))))
      | .ok it => .inl (.build processor s timing it.b.file_vec 0 AssocMap.empty)

def keyed [Resolver] (processor : Option (Frames → σ → Frames × σ)) (item : UnresolvedFrames F)
    (s : σ) : Frames × σ :=
  match processor with
  | some processor => processor (Frames.from item) s
  | none => (Frames.from item,s)

/-- One turn of the loop, or the return from it. A panic ends the report. -/
def ReportRun.next [Resolver] (p : Profiler F) : ReportRun F σ → ReportRun F σ ⊕ Outcome F
  | .build_unresolved timing file_vec index hash_map =>
    match answer index (p.entries file_vec) with
    | none => .inr (.unresolved (.ok (.ok ⟨hash_map,timing⟩)))
    | some entry =>
      if 0 < entry.count then
        match countInto hash_map entry.item entry.count with
        | .ok hash_map => .inl (.build_unresolved timing file_vec (index+1) hash_map)
        | .error panic => .inr (.unresolved (.error panic))
      else .inl (.build_unresolved timing file_vec (index+1) hash_map)
  | .build processor s timing file_vec index hash_map =>
    match answer index (p.entries file_vec) with
    | none => .inr (.report (.ok (.ok ⟨hash_map,timing⟩)))
    | some entry =>
      if 0 < entry.count then
        let (key,s) := keyed processor entry.item s
        match countInto hash_map key entry.count with
        | .ok hash_map => .inl (.build processor s timing file_vec (index+1) hash_map)
        | .error panic => .inr (.report (.error panic))
      else .inl (.build processor s timing file_vec (index+1) hash_map)

/-- What the rest of the loop makes of the report if the collector stays as it is. -/
def ReportRun.outcome [Resolver] (p : Profiler F) : ReportRun F σ → Outcome F
  | .build_unresolved timing file_vec index hash_map => .unresolved do
      let data ← gatherUnresolved ((collect (p.entries file_vec)).drop index) hash_map
      pure (.ok ⟨data,timing⟩)
  | .build processor s timing file_vec index hash_map => .report do
      let data ← gather processor ((collect (p.entries file_vec)).drop index) s hash_map
      pure (.ok ⟨data,timing⟩)

omit [Frame F] in
theorem try_iter_entries {p : Profiler F} {fault : Option ReadFault}
    {it : Chain (Boxed (BucketIterator (UnresolvedFrames F)))
      (TempFdArrayIterator (Entry (UnresolvedFrames F)))}
    (h : p.data.try_iter fault = .ok it) : p.entries it.b.file_vec = it := by
  obtain ⟨temp,ht,h⟩ := bind_eq_ok.mp h
  cases pure_eq_ok.mp h
  obtain ⟨file,-,ht⟩ := bind_eq_ok.mp ht
  obtain ⟨⟨bytes,file'⟩,-,ht⟩ := bind_eq_ok.mp ht
  obtain ⟨file'',-,ht⟩ := bind_eq_ok.mp ht
  cases pure_eq_ok.mp ht
  rfl

variable [Resolver]

omit [Layout (Entry (UnresolvedFrames F))] [Target] in
theorem gather_cons (processor : Option (Frames → σ → Frames × σ))
    (entry : Entry (UnresolvedFrames F)) (entries : List (Entry (UnresolvedFrames F))) (s : σ)
    (hash_map : AssocMap Frames Int) :
    gather processor (entry :: entries) s hash_map =
      if 0 < entry.count then do
        let hash_map ← countInto hash_map (keyed processor entry.item s).1 entry.count
        gather processor entries (keyed processor entry.item s).2 hash_map
      else gather processor entries s hash_map := by
  cases processor <;> rfl

theorem enter_outcome (profiler : Except Error (Profiler F)) (call : ReportCall σ) :
    (∃ p run, profiler = .ok p ∧ call.enter profiler = .inl run ∧
      run.outcome p = call.atomic profiler) ∨
    call.enter profiler = .inr (call.atomic profiler) := by
  cases profiler with
  | error err => cases call <;> exact .inr rfl
  | ok p =>
    cases call with
    | build_unresolved timing fault =>
      cases ht : p.data.try_iter fault with
      | error err =>
        right
        simp only [ReportCall.enter,ReportCall.atomic,ReportBuilder.build_unresolved,ht]
      | ok it =>
        left
        refine ⟨p,.build_unresolved timing it.b.file_vec 0 AssocMap.empty,rfl,?_,?_⟩
        · simp only [ReportCall.enter,ht]
        · simp only [ReportRun.outcome,ReportCall.atomic,ReportBuilder.build_unresolved,ht,
            try_iter_entries ht,List.drop_zero]
    | build processor s timing fault =>
      cases ht : p.data.try_iter fault with
      | error err =>
        right
        simp only [ReportCall.enter,ReportCall.atomic,ReportBuilder.build,ht]
      | ok it =>
        left
        refine ⟨p,.build processor s timing it.b.file_vec 0 AssocMap.empty,rfl,?_,?_⟩
        · simp only [ReportCall.enter,ht]
        · simp only [ReportRun.outcome,ReportCall.atomic,ReportBuilder.build,ht,
            try_iter_entries ht,List.drop_zero]

omit [Frame F] [Resolver] in
theorem drop_of_answer (p : Profiler F)
    (file_vec : List (Layout.Byte (Entry (UnresolvedFrames F)))) (index : Nat) :
    (answer index (p.entries file_vec) = none ∧
      (collect (p.entries file_vec)).drop index = []) ∨
    ∃ entry, answer index (p.entries file_vec) = some entry ∧
      (collect (p.entries file_vec)).drop index =
        entry :: (collect (p.entries file_vec)).drop (index+1) := by
  rw [answer_eq]
  cases he : (collect (p.entries file_vec))[index]? with
  | none => exact .inl ⟨rfl,List.drop_eq_nil_of_le (List.getElem?_eq_none_iff.mp he)⟩
  | some entry =>
    obtain ⟨hi,rfl⟩ := List.getElem?_eq_some_iff.mp he
    exact .inr ⟨_,rfl,List.drop_eq_getElem_cons hi⟩

theorem next_outcome (p : Profiler F) (run : ReportRun F σ) :
    (∃ run', run.next p = .inl run' ∧ run'.outcome p = run.outcome p) ∨
      run.next p = .inr (run.outcome p) := by
  cases run with
  | build_unresolved timing file_vec index hash_map =>
    obtain ⟨ha,hd⟩ | ⟨entry,ha,hd⟩ := drop_of_answer p file_vec index
    · right
      simp only [ReportRun.next,ReportRun.outcome,ha,hd,gatherUnresolved]
      rfl
    · by_cases hc : 0 < entry.count
      · cases hm : countInto hash_map entry.item entry.count with
        | ok m =>
          left
          refine ⟨.build_unresolved timing file_vec (index+1) m,?_,?_⟩
          · simp only [ReportRun.next,ha,if_pos hc,hm]
          · simp only [ReportRun.outcome,hd,gatherUnresolved,if_pos hc,hm]
            rfl
        | error panic =>
          right
          simp only [ReportRun.next,ReportRun.outcome,ha,hd,gatherUnresolved,if_pos hc,hm]
          rfl
      · left
        refine ⟨.build_unresolved timing file_vec (index+1) hash_map,?_,?_⟩
        · simp only [ReportRun.next,ha,if_neg hc]
        · simp only [ReportRun.outcome,hd,gatherUnresolved,if_neg hc]
  | build processor s timing file_vec index hash_map =>
    obtain ⟨ha,hd⟩ | ⟨entry,ha,hd⟩ := drop_of_answer p file_vec index
    · right
      simp only [ReportRun.next,ReportRun.outcome,ha,hd,gather]
      rfl
    · by_cases hc : 0 < entry.count
      · rcases hkey : keyed processor entry.item s with ⟨key,s'⟩
        cases hm : countInto hash_map key entry.count with
        | ok m =>
          left
          refine ⟨.build processor s' timing file_vec (index+1) m,?_,?_⟩
          · simp only [ReportRun.next,ha,if_pos hc,hkey,hm]
          · simp only [ReportRun.outcome,hd,gather_cons,if_pos hc,hkey,hm]
            rfl
        | error panic =>
          right
          simp only [ReportRun.next,ReportRun.outcome,ha,hd,gather_cons,if_pos hc,hkey,hm]
          rfl
      · left
        refine ⟨.build processor s timing file_vec (index+1) hash_map,?_,?_⟩
        · simp only [ReportRun.next,ha,if_neg hc]
        · simp only [ReportRun.outcome,hd,gather_cons,if_neg hc]

end Calls

section Steps
variable {F σ : Type} [Layout (Entry (UnresolvedFrames F))] [Target] [Frame F]

structure Reporting (F σ : Type) [Layout (Entry (UnresolvedFrames F))] [Target] [Frame F] where
  threads : Threads F
  reading : List (ReportCall σ × ReportRun F σ)
  writing : Option (ReportCall σ × ReportRun F σ)
  finished : List (ReportCall σ × Outcome F)

/-- `enter` is the moment in which a call of a report builder for guard `i` gets the lock. -/
inductive ReportEvent (F σ : Type) where
  | other (e : Event F)
  | enter (i : Nat) (call : ReportCall σ)
  | read_next (i : Nat)
  | write_next

def ReportEvent.other? : ReportEvent F σ → Option (Event F)
  | .other e => some e
  | _ => none

/-- What has to wait until no report is under way: whoever asks for the lock to write, and the
drop of a guard, which the reports borrow. -/
def Event.waits : Event F → Bool
  | .build .. | .disarm _ | .restore .. | .sample .. => true
  | _ => false

def Reporting.underway (c : Reporting F σ) : List (ReportCall σ × ReportRun F σ) :=
  c.reading ++ c.writing.toList

variable [DefaultHasher] [Resolver]

def Reporting.step (c : Reporting F σ) : ReportEvent F σ → Option (Reporting F σ)
  | .other e =>
    if e.waits && !c.underway.isEmpty then none
    else (c.threads.step e).map fun threads => { c with threads }
  | .enter i call =>
    match c.threads.lock, c.threads.world.guards[i]?, c.threads.world.PROFILER with
    | .free, some ⟨some _⟩, some profiler =>
      if c.writing.isSome || (call.exclusive && !c.reading.isEmpty) then none
      else
        match call.enter profiler with
        | .inl run =>
          if call.exclusive then some { c with writing := some (call,run) }
          else some { c with reading := c.reading ++ [(call,run)] }
        | .inr outcome => some { c with finished := c.finished ++ [(call,outcome)] }
    | _, _, _ => none
  | .read_next i =>
    match c.reading[i]?, c.threads.world.PROFILER with
    | some (call,run), some (.ok p) =>
      match run.next p with
      | .inl run => some { c with reading := c.reading.set i (call,run) }
      | .inr outcome => some { c with
          reading := c.reading.eraseIdx i
          finished := c.finished ++ [(call,outcome)] }
    | _, _ => none
  | .write_next =>
    match c.writing, c.threads.world.PROFILER with
    | some (call,run), some (.ok p) =>
      match run.next p with
      | .inl run => some { c with writing := some (call,run) }
      | .inr outcome => some { c with
          writing := none
          finished := c.finished ++ [(call,outcome)] }
    | _, _ => none

def Threads.reporting (c : Threads F) : Reporting F σ := ⟨c,[],none,[]⟩

variable {c c' : Reporting F σ}

theorem step_other {e : Event F} (h : c.step (.other e) = some c') :
    (e.waits = true → c.underway = []) ∧
      ∃ threads, c.threads.step e = some threads ∧ c' = { c with threads } := by
  simp only [Reporting.step] at h
  split at h
  · cases h
  · rename_i hw
    obtain ⟨threads,ht,rfl⟩ := Option.map_eq_some_iff.mp h
    refine ⟨fun he => ?_,threads,ht,rfl⟩
    simpa [he] using hw

theorem step_enter {i : Nat} {call : ReportCall σ} (h : c.step (.enter i call) = some c') :
    ∃ timer profiler, c.threads.lock = .free ∧ c.threads.world.guards[i]? = some ⟨some timer⟩ ∧
      c.threads.world.PROFILER = some profiler ∧ c.writing = none ∧
      (call.exclusive = true → c.reading = []) ∧
      ((∃ run, call.enter profiler = .inl run ∧
        ((call.exclusive = true ∧ c' = { c with writing := some (call,run) }) ∨
          (call.exclusive = false ∧ c' = { c with reading := c.reading ++ [(call,run)] }))) ∨
      ∃ outcome, call.enter profiler = .inr outcome ∧
        c' = { c with finished := c.finished ++ [(call,outcome)] }) := by
  simp only [Reporting.step] at h
  split at h
  · rename_i timer profiler hl hg hp
    split at h
    · cases h
    · rename_i hfree
      simp only [Bool.or_eq_true,Bool.and_eq_true,not_or,not_and] at hfree
      obtain ⟨hwriting,hreading⟩ := hfree
      refine ⟨timer,profiler,hl,hg,hp,by simpa using hwriting,?_,?_⟩
      · intro he
        simpa using hreading he
      · split at h
        · rename_i run hrun
          refine .inl ⟨run,hrun,?_⟩
          split at h
          · rename_i he
            cases h
            exact .inl ⟨he,rfl⟩
          · rename_i he
            cases h
            exact .inr ⟨by simpa using he,rfl⟩
        · rename_i outcome hout
          cases h
          exact .inr ⟨outcome,hout,rfl⟩
  · cases h

theorem step_read_next {i : Nat} (h : c.step (.read_next i) = some c') :
    ∃ call run p, c.reading[i]? = some (call,run) ∧ c.threads.world.PROFILER = some (.ok p) ∧
      ((∃ run', run.next p = .inl run' ∧
        c' = { c with reading := c.reading.set i (call,run') }) ∨
      ∃ outcome, run.next p = .inr outcome ∧ c' = { c with
        reading := c.reading.eraseIdx i
        finished := c.finished ++ [(call,outcome)] }) := by
  simp only [Reporting.step] at h
  split at h
  · rename_i call run p hr hp
    refine ⟨call,run,p,hr,hp,?_⟩
    split at h <;> rename_i hn <;> cases h
    · exact .inl ⟨_,hn,rfl⟩
    · exact .inr ⟨_,hn,rfl⟩
  · cases h

theorem step_write_next (h : c.step .write_next = some c') :
    ∃ call run p, c.writing = some (call,run) ∧ c.threads.world.PROFILER = some (.ok p) ∧
      ((∃ run', run.next p = .inl run' ∧ c' = { c with writing := some (call,run') }) ∨
      ∃ outcome, run.next p = .inr outcome ∧ c' = { c with
        writing := none
        finished := c.finished ++ [(call,outcome)] }) := by
  simp only [Reporting.step] at h
  split at h
  · rename_i call run p hr hp
    refine ⟨call,run,p,hr,hp,?_⟩
    split at h <;> rename_i hn <;> cases h
    · exact .inl ⟨_,hn,rfl⟩
    · exact .inr ⟨_,hn,rfl⟩
  · cases h

/-- With the reports left out a run is one of the other calls and the handlers. -/
theorem reporting_projects : Projects (Reporting.step (F := F) (σ := σ)) Threads.step
    Reporting.threads ReportEvent.other? := by
  intro c e c' hs
  cases e with
  | other e =>
    obtain ⟨-,threads,ht,rfl⟩ := step_other hs
    exact ht
  | enter i call =>
    obtain ⟨-,-,-,-,-,-,-,⟨run,-,⟨-,rfl⟩ | ⟨-,rfl⟩⟩ | ⟨outcome,-,rfl⟩⟩ := step_enter hs <;> rfl
  | read_next i =>
    obtain ⟨-,-,-,-,-,⟨run,-,rfl⟩ | ⟨outcome,-,rfl⟩⟩ := step_read_next hs <;> rfl
  | write_next =>
    obtain ⟨-,-,-,-,-,⟨run,-,rfl⟩ | ⟨outcome,-,rfl⟩⟩ := step_write_next hs <;> rfl

end Steps

end Pprof
