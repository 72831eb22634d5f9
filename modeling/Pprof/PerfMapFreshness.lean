import Pprof.PerfMapRefresh
set_option autoImplicit false

/-! When the stored perf map ends up being that of the current file. -/

namespace Pprof
open Runs Sharing

def Job.resume : Job → Option LoadedMap
  | .refresh => none
  | .init resume => resume

def Job.is_init : Job → Bool
  | .refresh => false
  | .init _ => true

def RefreshPc.job : RefreshPc → Option Job
  | .touch resume => some (.init resume)
  | .open_file job | .metadata job | .load_mtime job _ | .store_mtime job _ | .read job _ _ =>
    some job
  | .begin | .load_resolver | .store_resolver _ | .done | .panicked => none

def RefreshPc.pending : RefreshPc → Option LoadedMap
  | .touch resume => resume
  | .open_file job | .metadata job | .load_mtime job _ | .store_mtime job _ | .read job _ _ =>
    job.resume
  | .store_resolver perf_map => some perf_map
  | .begin | .load_resolver | .done | .panicked => none

def RefreshPc.initialising (pc : RefreshPc) : Bool := pc.job.any Job.is_init

theorem pending_of_job {pc : RefreshPc} {job : Job} (h : pc.job = some job) :
    pc.pending = job.resume := by
  cases pc <;> first | (cases h; rfl) | cases h

theorem initialising_of_job {pc : RefreshPc} {job : Job} (h : pc.job = some job) :
    pc.initialising = job.is_init := by
  unfold RefreshPc.initialising
  rw [h]
  rfl

def PerfMaps.Current (s : PerfMaps) (m : LoadedMap) : Prop :=
  m.revision ≤ s.revision ∧ (m.revision = s.revision → s.Parses m.map)

/-- The thread reads the current content or has done so. -/
def Refresh.OnItsWay (revision : Nat) (t : Refresh) : Prop :=
  (∃ m, t.pc.pending = some m ∧ m.revision = revision) ∨
    ∃ job r k, t.pc = .read job r k ∧ (r.pos = 0 ∨ k = revision)

def PerfMaps.Stored (s : PerfMaps) : Prop :=
  ∃ m, s.RESOLVER.stored = some m ∧ m.revision = s.revision

/-- The map of the current content is stored or will be, if there is one. -/
def Refreshes.Settles (s : Refreshes) : Prop :=
  (∃ t ∈ s.threads, t.OnItsWay s.state.revision) ∨ s.state.Stored ∨
    ∀ map, ¬ s.state.Parses map

structure PerfMaps.Fits (s : PerfMaps) (t : Refresh) : Prop where
  began : t.began ≤ s.revision
  pending : ∀ m, t.pc.pending = some m → s.Current m ∧ t.began ≤ m.revision
  held : ∀ job secs, t.pc = .load_mtime job secs ∨ t.pc = .store_mtime job secs →
    t.began = s.revision → ∃ f, s.file = some f ∧ as_secs f.mtime = some secs
  reading : ∀ job r k, t.pc = .read job r k → r = .start ∨
    (0 < r.pos ∧ k ≤ s.revision ∧ t.began ≤ k ∧
      (k = s.revision → ∃ f, s.file = some f ∧ r.Reads f.content))
  init : t.pc.initialising = true → s.RESOLVER = .running
  load : t.pc = .load_resolver → t.spawned = false
  caller : t.spawned = false →
    t.pc = .load_resolver ∨ t.pc.finished = true ∨ t.pc.job = some (.init none)

structure Refreshes.Sound (s : Refreshes) : Prop where
  fits : s.All PerfMaps.Fits
  one : AtMostOne (fun t => t.pc.initialising) s.threads
  sane : s.state.RESOLVER ≠ .poisoned
  stored : ∀ m, s.state.RESOLVER.stored = some m → s.state.Current m
  dated : ∀ f, s.state.file = some f → as_secs f.mtime ≠ none
  recorded : ∀ f, s.state.file = some f → as_secs f.mtime = some s.state.MTIME → s.Settles
  finished : ∀ t ∈ s.threads, t.spawned = true → t.pc.finished = true →
    t.began = s.state.revision → s.Settles

structure PerfMaps.SameFile (s g : PerfMaps) : Prop where
  file : g.file = s.file
  revision : g.revision = s.revision

theorem PerfMaps.SameFile.parses {s g : PerfMaps} (h : s.SameFile g) (map : PerfMap) :
    g.Parses map ↔ s.Parses map := by
  unfold PerfMaps.Parses
  rw [h.file]

theorem PerfMaps.SameFile.current {s g : PerfMaps} (h : s.SameFile g) {m : LoadedMap}
    (hm : s.Current m) : g.Current m := by
  unfold PerfMaps.Current
  rw [h.revision,h.parses]
  exact hm

theorem PerfMaps.Fits.same {s g : PerfMaps} {t : Refresh} (h : s.Fits t) (hs : s.SameFile g)
    (hi : t.pc.initialising = true → g.RESOLVER = .running) : g.Fits t where
  began := by
    rw [hs.revision]
    exact h.began
  pending m hm := ⟨hs.current (h.pending m hm).1,(h.pending m hm).2⟩
  held := by
    rw [hs.revision,hs.file]
    exact h.held
  reading := by
    rw [hs.revision,hs.file]
    exact h.reading
  init := hi
  load := h.load
  caller := h.caller

theorem caller_job {s : PerfMaps} {t : Refresh} (h : s.Fits t) {job : Job}
    (hj : t.pc.job = some job) (hsp : t.spawned = false) : job = .init none := by
  rcases h.caller hsp with hl | hf | hi
  · rw [hl] at hj
    cases hj
  · obtain ⟨began,spawned,pc⟩ := t
    cases pc with
    | done | panicked => cases hj
    | _ => cases hf
  · rw [hj] at hi
    exact Option.some.inj hi

theorem Refreshes.Settles.set {s : Refreshes} (h : s.Settles) {i : Nat} {c c' : Refresh}
    (hi : s.threads[i]? = some c) {g : PerfMaps} (hs : s.state.SameFile g)
    (hway : c.OnItsWay s.state.revision → c'.OnItsWay s.state.revision ∨ g.Stored ∨
      ∀ map, ¬ s.state.Parses map)
    (hkeep : s.state.Stored → g.Stored) : Refreshes.Settles ⟨g,s.threads.set i c'⟩ := by
  have hnone : (∀ map, ¬ s.state.Parses map) → ∀ map, ¬ g.Parses map := fun hn map hp =>
    hn map ((hs.parses map).mp hp)
  have hown : c'.OnItsWay s.state.revision → Refreshes.Settles ⟨g,s.threads.set i c'⟩ := by
    intro hc
    refine Or.inl ⟨c',mem_set_self hi c',?_⟩
    simp only [hs.revision]
    exact hc
  rcases h with ⟨t,ht,hw⟩ | hst | hn
  · rcases mem_set_other hi ht c' with rfl | ht
    · rcases hway hw with hc | hst | hn
      · exact hown hc
      · exact Or.inr (Or.inl hst)
      · exact Or.inr (Or.inr (hnone hn))
    · refine Or.inl ⟨t,ht,?_⟩
      simp only [hs.revision]
      exact hw
  · exact Or.inr (Or.inl (hkeep hst))
  · exact Or.inr (Or.inr (hnone hn))

/-- What a step has to show of the thread that takes it and of what is shared. -/
theorem Refreshes.Sound.set {s : Refreshes} (h : s.Sound) {i : Nat} {c c' : Refresh}
    (hi : s.threads[i]? = some c) {g : PerfMaps} (hs : s.state.SameFile g) (hown : g.Fits c')
    (hbusy : c'.pc.initialising = true →
      c.pc.initialising = true ∨ s.state.RESOLVER = .empty)
    (hrunning : s.state.RESOLVER = .running → c.pc.initialising = false →
      g.RESOLVER = .running)
    (hsane : g.RESOLVER ≠ .poisoned)
    (hstored : ∀ m, g.RESOLVER.stored = some m → s.state.Current m)
    (hway : c.OnItsWay s.state.revision → c'.OnItsWay s.state.revision ∨ g.Stored ∨
      ∀ map, ¬ s.state.Parses map)
    (hkeep : s.state.Stored → g.Stored)
    (hmtime : g.MTIME = s.state.MTIME ∨ c'.OnItsWay s.state.revision)
    (hfin : c'.spawned = true → c'.pc.finished = true → c'.began = s.state.revision →
      s.Settles ∨ g.Stored ∨ ∀ map, ¬ s.state.Parses map) :
    Refreshes.Sound ⟨g,s.threads.set i c'⟩ := by
  have hset : s.Settles → Refreshes.Settles ⟨g,s.threads.set i c'⟩ := fun hst =>
    hst.set hi hs hway hkeep
  have hothers : ∀ j d, j ≠ i → s.threads[j]? = some d → s.state.Fits d → g.Fits d := by
    intro j d hj hd hf
    refine hf.same hs fun hdi => hrunning (hf.init hdi) ?_
    by_contra hc
    exact hj (h.one j i d c hd hi hdi (by simpa using hc))
  refine ⟨h.fits.set hown hothers,h.one.set hi fun hb => ?_,hsane,
    fun m hm => hs.current (hstored m hm),?_,?_,?_⟩
  · refine (hbusy hb).imp_right fun he q hq => ?_
    by_contra hqi
    have hrun := (h.fits q hq).init (by simpa using hqi)
    rw [he] at hrun
    cases hrun
  · intro f hf
    exact h.dated f (by rw [← hs.file]; exact hf)
  · intro f hf hsecs
    rcases hmtime with hm | hw
    · refine hset (h.recorded f ?_ ?_)
      · rw [← hs.file]
        exact hf
      · rw [← hm]
        exact hsecs
    · refine Or.inl ⟨c',mem_set_self hi c',?_⟩
      simp only [hs.revision]
      exact hw
  · intro t ht hsp hdone hb
    rw [show (⟨g,s.threads.set i c'⟩ : Refreshes).state.revision = s.state.revision
      from hs.revision] at hb
    rcases mem_set_or ht with rfl | ⟨j,-,hj⟩
    · rcases hfin hsp hdone hb with hst | hst | hn
      · exact hset hst
      · exact Or.inr (Or.inl hst)
      · exact Or.inr (Or.inr fun map hp => hn map ((hs.parses map).mp hp))
    · exact hset (h.finished t (List.mem_of_getElem? hj) hsp hdone hb)

theorem PerfMaps.SameFile.refl (s : PerfMaps) : s.SameFile s := ⟨rfl,rfl⟩

theorem Refreshes.Sound.move {s : Refreshes} (h : s.Sound) {i : Nat} {c c' : Refresh}
    (hi : s.threads[i]? = some c) (hown : s.state.Fits c')
    (hbusy : c'.pc.initialising = true → c.pc.initialising = true)
    (hway : c.OnItsWay s.state.revision → c'.OnItsWay s.state.revision ∨
      ∀ map, ¬ s.state.Parses map)
    (hfin : c'.spawned = true → c'.pc.finished = true → c'.began = s.state.revision →
      s.Settles ∨ ∀ map, ¬ s.state.Parses map) :
    Refreshes.Sound ⟨s.state,s.threads.set i c'⟩ :=
  h.set hi (.refl s.state) hown (fun hb => Or.inl (hbusy hb)) (fun hr _ => hr) h.sane h.stored
    (fun hw => (hway hw).imp_right Or.inr) id (Or.inl rfl)
    fun hsp hdone hb => (hfin hsp hdone hb).imp_right Or.inr

theorem fits_finished {s : PerfMaps} {t : Refresh} (hb : t.began ≤ s.revision)
    (hf : t.pc.finished = true) : s.Fits t := by
  obtain ⟨began,spawned,pc⟩ := t
  cases pc with
  | done | panicked => exact ⟨hb,nofun,nofun,nofun,nofun,nofun,fun _ => Or.inr (Or.inl rfl)⟩
  | _ => cases hf

theorem fits_store {s : PerfMaps} {m : LoadedMap} (hm : s.Current m) {t : Refresh}
    (hb : t.began ≤ m.revision) (hsp : t.spawned = true) :
    s.Fits { t with pc := .store_resolver m } where
  began := Nat.le_trans hb hm.1
  pending m' h := by
    cases h
    exact ⟨hm,hb⟩
  held := nofun
  reading := nofun
  init := nofun
  load := nofun
  caller h := by
    rw [hsp] at h
    cases h

theorem not_stored_of_running {s : PerfMaps} (h : s.RESOLVER = .running) : ¬ s.Stored := by
  rintro ⟨m,hm,-⟩
  rw [h] at hm
  cases hm

theorem Refresh.OnItsWay.reading {revision : Nat} {t : Refresh} (h : t.OnItsWay revision)
    (hp : t.pc.pending = none) :
    ∃ job r k, t.pc = .read job r k ∧ (r.pos = 0 ∨ k = revision) := by
  rcases h with ⟨m,hm,-⟩ | hr
  · rw [hp] at hm
    cases hm
  · exact hr

/-- What a thread knows at the end of `init_resolver`, with a map or for a reason not to read
one. -/
structure Refreshes.Ends (s : Refreshes) (c : Refresh) (result : Option LoadedMap) : Prop where
  current : ∀ m, result = some m → s.state.Current m ∧ c.began ≤ m.revision
  read : (∃ job r k, c.pc = .read job r k ∧ (r.pos = 0 ∨ k = s.state.revision)) →
    (∃ m, result = some m ∧ m.revision = s.state.revision) ∨ ∀ map, ¬ s.state.Parses map
  reason : result = none → c.began = s.state.revision → s.Settles ∨ ∀ map, ¬ s.state.Parses map

section Finish
variable {s : Refreshes} {i : Nat} {c : Refresh} {result : Option LoadedMap}

theorem sound_finish_refresh (h : s.Sound) (hi : s.threads[i]? = some c)
    (hj : c.pc.job = some .refresh) (he : s.Ends c result) :
    Refreshes.Sound ⟨(s.state.finish c result .refresh).1,
      s.threads.set i (s.state.finish c result .refresh).2⟩ := by
  have hf : s.state.Fits c := h.fits c (List.mem_of_getElem? hi)
  have hp := pending_of_job hj
  cases result with
  | none =>
    refine h.move hi (fits_finished hf.began rfl) nofun (fun hw => ?_) fun _ _ => he.reason rfl
    obtain ⟨m,hm,-⟩ | hn := he.read (hw.reading hp)
    · cases hm
    · exact Or.inr hn
  | some m =>
    obtain ⟨hm,hle⟩ := he.current m rfl
    have hspawned : c.spawned = true := by
      by_contra hsp
      cases caller_job hf hj (by simpa using hsp)
    refine h.move hi (fits_store hm hle hspawned) nofun (fun hw => ?_) nofun
    refine (he.read (hw.reading hp)).imp_left ?_
    rintro ⟨m',hm',hrev⟩
    cases hm'
    exact Or.inl ⟨m,rfl,hrev⟩

theorem sound_finish_init (h : s.Sound) (hi : s.threads[i]? = some c)
    {resume : Option LoadedMap} (hj : c.pc.job = some (.init resume)) (he : s.Ends c result)
    {c' : Refresh} (hown : PerfMaps.Fits { s.state with RESOLVER := .ready result } c')
    (hidle : c'.pc.initialising = false)
    (hway : ∀ m, resume = some m → m.revision = s.state.revision →
      c'.OnItsWay s.state.revision)
    (hfin : c'.pc.finished = true → c'.began = s.state.revision → s.Settles ∨
      PerfMaps.Stored { s.state with RESOLVER := .ready result } ∨ ∀ map, ¬ s.state.Parses map) :
    Refreshes.Sound ⟨{ s.state with RESOLVER := .ready result },s.threads.set i c'⟩ := by
  have hb := initialising_of_job hj
  have hrun : s.state.RESOLVER = .running :=
    (h.fits c (List.mem_of_getElem? hi)).init hb
  refine h.set hi ⟨rfl,rfl⟩ hown ?_ ?_ nofun (fun m hm => (he.current m hm).1) ?_
    (fun hst => absurd hst (not_stored_of_running hrun)) (Or.inl rfl) fun _ => hfin
  · intro hb'
    rw [hidle] at hb'
    cases hb'
  · intro _ hn
    rw [hb] at hn
    cases hn
  · rintro (⟨m,hm,hrev⟩ | hr)
    · rw [pending_of_job hj] at hm
      exact Or.inl (hway m hm hrev)
    · exact Or.inr (he.read hr)

theorem sound_finish (h : s.Sound) (hi : s.threads[i]? = some c) {job : Job}
    (hj : c.pc.job = some job) {g : PerfMaps} {c' : Refresh}
    (hg : s.state.finish c result job = (g,c')) (he : s.Ends c result) :
    Refreshes.Sound ⟨g,s.threads.set i c'⟩ := by
  have hf : s.state.Fits c := h.fits c (List.mem_of_getElem? hi)
  cases job with
  | refresh =>
    have hsound := sound_finish_refresh h hi hj he
    rwa [hg] at hsound
  | init resume =>
    cases resume with
    | none =>
      cases hg
      refine sound_finish_init h hi hj he (fits_finished hf.began rfl) rfl nofun ?_
      intro _ hbegan
      cases result with
      | none => exact (he.reason rfl hbegan).imp_right Or.inr
      | some m =>
        obtain ⟨hm,hle⟩ := he.current m rfl
        have hrev : m.revision = s.state.revision := Nat.le_antisymm hm.1 (hbegan ▸ hle)
        exact Or.inr (Or.inl ⟨m,rfl,hrev⟩)
    | some m =>
      cases hg
      obtain ⟨hm,hle⟩ := hf.pending m (pending_of_job hj)
      have hspawned : c.spawned = true := by
        by_contra hsp
        cases caller_job hf hj (by simpa using hsp)
      refine sound_finish_init h hi hj he
        ((fits_store hm hle hspawned).same ⟨rfl,rfl⟩ nofun) rfl ?_ nofun
      intro m' hm' hrev
      exact Or.inl ⟨m',hm',hrev⟩

theorem ends_without (hr : ∀ job r k, c.pc ≠ .read job r k)
    (hreason : c.began = s.state.revision → s.Settles ∨ ∀ map, ¬ s.state.Parses map) :
    s.Ends c none where
  current := nofun
  read := by
    rintro ⟨job,r,k,hc,-⟩
    exact absurd hc (hr job r k)
  reason _ := hreason

end Finish

theorem sound_force {s : Refreshes} (h : s.Sound) {i : Nat} {c : Refresh}
    (hi : s.threads[i]? = some c) {resume : Option LoadedMap} (hp : c.pc.pending = resume)
    (hr : ∀ job r k, c.pc ≠ .read job r k) (hsp : c.spawned = false → resume = none)
    (he : s.state.RESOLVER = .empty) :
    Refreshes.Sound ⟨{ s.state with RESOLVER := .running },
      s.threads.set i { c with pc := .touch resume }⟩ := by
  have hf : s.state.Fits c := h.fits c (List.mem_of_getElem? hi)
  have hown : PerfMaps.Fits { s.state with RESOLVER := .running }
      { c with pc := .touch resume } := by
    refine ⟨hf.began,fun m hm => ?_,nofun,nofun,fun _ => rfl,nofun,fun h => ?_⟩
    · exact hf.pending m (hp.trans hm)
    · rw [hsp h]
      exact Or.inr (Or.inr rfl)
  refine h.set hi ⟨rfl,rfl⟩ hown (fun _ => Or.inr he) (fun _ _ => rfl) nofun nofun ?_ ?_
    (Or.inl rfl) nofun
  · rintro (⟨m,hm,hrev⟩ | ⟨job,r,k,hc,-⟩)
    · exact Or.inl (Or.inl ⟨m,hp.symm.trans hm,hrev⟩)
    · exact absurd hc (hr job r k)
  · rintro ⟨m,hm,-⟩
    rw [he] at hm
    cases hm

theorem not_parses {s : PerfMaps} {f : MapFile} (hf : s.file = some f) {stop : Stop}
    (hn : PerfMap.new f.content = .error stop) (map : PerfMap) : ¬ s.Parses map := by
  rintro ⟨f',hf',hm⟩
  rw [hf] at hf'
  cases hf'
  rw [hn] at hm
  cases hm

theorem fits_reading {s : PerfMaps} {t : Refresh} (h : s.Fits t) {job : Job} {r : MapReader}
    {k : Nat} (ht : t.pc = .read job r k) {f : MapFile} (hf : s.file = some f) :
    (if r.pos = 0 then s.revision else k) ≤ s.revision ∧
      t.began ≤ (if r.pos = 0 then s.revision else k) ∧
      ((if r.pos = 0 then s.revision else k) = s.revision → r.Reads f.content) ∧
      (r.pos = 0 → r.buf = []) := by
  rcases h.reading job r k ht with rfl | ⟨hpos,hk,hb,hr⟩
  · exact ⟨Nat.le_refl _,h.began,fun _ => reads_start f.content,fun _ => rfl⟩
  · have hne : r.pos ≠ 0 := by omega
    simp only [hne,if_false]
    refine ⟨hk,hb,fun hrev => ?_,nofun⟩
    obtain ⟨f',hf',hreads⟩ := hr hrev
    rw [hf] at hf'
    cases hf'
    exact hreads

section Reading
variable {s : Refreshes} {i : Nat} {c : Refresh} {job : Job} {r : MapReader} {k k' : Nat}

theorem read_of_pc (hc : c.pc = .read job r k) {revision : Nat}
    (hread : ∃ job r k, c.pc = .read job r k ∧ (r.pos = 0 ∨ k = revision)) :
    r.pos = 0 ∨ k = revision := by
  obtain ⟨job',r',k'',hc',hw⟩ := hread
  rw [hc] at hc'
  cases hc'
  exact hw

theorem sound_read_on (h : s.Sound) (hi : s.threads[i]? = some c) (hc : c.pc = .read job r k)
    {r' : MapReader} (hpos : 0 < r'.pos) (hle : k' ≤ s.state.revision) (hbegan : c.began ≤ k')
    (hreads : k' = s.state.revision → ∃ f, s.state.file = some f ∧ r'.Reads f.content)
    (hway : r.pos = 0 ∨ k = s.state.revision → k' = s.state.revision) :
    Refreshes.Sound ⟨s.state,s.threads.set i { c with pc := .read job r' k' }⟩ := by
  have hfit : s.state.Fits c := h.fits c (List.mem_of_getElem? hi)
  have hj : c.pc.job = some job := by
    rw [hc]
    rfl
  have hp := pending_of_job hj
  have hb := initialising_of_job hj
  refine h.move hi ?_ (fun hi' => hb.trans hi') ?_ nofun
  · refine ⟨hfit.began,fun m hm => hfit.pending m (hp.trans hm),nofun,?_,
      fun hi' => hfit.init (hb.trans hi'),nofun,
      fun hsp => Or.inr (Or.inr (congrArg some (caller_job hfit hj hsp)))⟩
    intro job' r'' k'' hc'
    cases hc'
    exact Or.inr ⟨hpos,hle,hbegan,hreads⟩
  · rintro (⟨m,hm,hrev⟩ | hw)
    · exact Or.inl (Or.inl ⟨m,hp.symm.trans hm,hrev⟩)
    · exact Or.inl (Or.inr ⟨job,r',k',rfl,Or.inr (hway (read_of_pc hc hw))⟩)

theorem sound_read_panics (h : s.Sound) (hi : s.threads[i]? = some c)
    (hc : c.pc = .read .refresh r k)
    (hstop : r.pos = 0 ∨ k = s.state.revision → ∀ map, ¬ s.state.Parses map)
    (hlast : c.began = s.state.revision → ∀ map, ¬ s.state.Parses map) :
    Refreshes.Sound ⟨s.state,s.threads.set i { c with pc := .panicked }⟩ := by
  have hfit : s.state.Fits c := h.fits c (List.mem_of_getElem? hi)
  have hp : c.pc.pending = none := by
    rw [hc]
    rfl
  refine h.move hi (fits_finished hfit.began rfl) nofun (fun hw => ?_)
    fun _ _ hbegan => Or.inr (hlast hbegan)
  exact Or.inr (hstop (read_of_pc hc (hw.reading hp)))

theorem sound_read_map (h : s.Sound) {n : Nat} {now : Int} (hi : s.threads[i]? = some c)
    (hc : c.pc = .read job r k) (he : s.TimelyAt n now c) {g : PerfMaps} {c' : Refresh}
    (hn : s.state.next n now c = some (g,c')) : Refreshes.Sound ⟨g,s.threads.set i c'⟩ := by
  have hfit : s.state.Fits c := h.fits c (List.mem_of_getElem? hi)
  simp only [PerfMaps.next,hc] at hn
  obtain ⟨f,hf,hn⟩ := Option.bind_eq_some_iff.mp hn
  have hn0 : ¬ n = 0 := by
    intro h0
    simp [h0] at hn
  have hpos : 0 < n := Nat.pos_of_ne_zero hn0
  simp only [hn0,if_false] at hn
  obtain ⟨hle,hbegan,hreads,hbuf⟩ := fits_reading hfit hc hf
  have hway : (r.pos = 0 ∨ k = s.state.revision) →
      (if r.pos = 0 then s.state.revision else k) = s.state.revision := by
    intro hw
    split
    · rfl
    · rename_i hne
      exact hw.resolve_left hne
  have hj : c.pc.job = some job := by
    rw [hc]
    rfl
  generalize hk' : (if r.pos = 0 then s.state.revision else k) = k' at *
  cases hr : r.read f.content n with
  | ok next =>
    cases next with
    | none =>
      simp only [hr] at hn
      have hread := fun hrev => reads_end (hreads hrev) hpos hr
      refine sound_finish h hi hj (Option.some.inj hn)
        ⟨?_,fun hw => Or.inl ⟨_,rfl,hway (read_of_pc hc hw)⟩,nofun⟩
      intro m hm
      cases hm
      exact ⟨⟨hle,fun hrev => ⟨f,hf,hread hrev⟩⟩,hbegan⟩
    | some r' =>
      simp only [hr] at hn
      cases hn
      exact sound_read_on h hi hc (read_pos hbuf hr) hle hbegan
        (fun hrev => ⟨f,hf,reads_read (hreads hrev) hpos hr⟩) hway
  | error stop =>
    have hstop : k' = s.state.revision → ∀ map, ¬ s.state.Parses map := fun hrev =>
      not_parses hf (reads_error (hreads hrev) hpos hr)
    have hlast : c.began = s.state.revision → k' = s.state.revision := fun hbr =>
      Nat.le_antisymm hle (hbr ▸ hbegan)
    cases stop with
    | early =>
      simp only [hr] at hn
      exact sound_finish h hi hj (Option.some.inj hn) ⟨nofun,
        fun hw => Or.inr (hstop (hway (read_of_pc hc hw))),fun _ hbr => Or.inr (hstop (hlast hbr))⟩
    | panic panic =>
      cases job with
      | refresh =>
        simp only [hr] at hn
        cases hn
        exact sound_read_panics h hi hc (fun hw => hstop (hway hw)) fun hbr => hstop (hlast hbr)
      | init resume =>
        simp only [Refreshes.TimelyAt,hc] at he
        have hno := he f hf
        rw [hr] at hno
        cases hno

end Reading

theorem sound_walk {s : Refreshes} (h : s.Sound) {i : Nat} {c : Refresh}
    (hi : s.threads[i]? = some c) (hr : ∀ job r k, c.pc ≠ .read job r k) {job : Job}
    (hj : c.pc.job = some job) {pc : RefreshPc} (hj' : pc.job = some job)
    (hr' : ∀ job r k, pc ≠ .read job r k)
    (hheld : ∀ job secs, pc = .load_mtime job secs ∨ pc = .store_mtime job secs →
      c.began = s.state.revision →
      ∃ f, s.state.file = some f ∧ as_secs f.mtime = some secs) :
    Refreshes.Sound ⟨s.state,s.threads.set i { c with pc := pc }⟩ := by
  have hf : s.state.Fits c := h.fits c (List.mem_of_getElem? hi)
  have hp : pc.pending = c.pc.pending := (pending_of_job hj').trans (pending_of_job hj).symm
  have hb : pc.initialising = c.pc.initialising :=
    (initialising_of_job hj').trans (initialising_of_job hj).symm
  refine h.move hi ?_ (fun hb' => hb.symm.trans hb') ?_ ?_
  · refine ⟨hf.began,fun m hm => hf.pending m (hp.symm.trans hm),hheld,?_,
      fun hi' => hf.init (hb.symm.trans hi'),?_,fun hsp => Or.inr (Or.inr ?_)⟩
    · intro job r k hpc
      exact absurd hpc (hr' job r k)
    · rintro rfl
      cases hj'
    · exact hj'.trans (congrArg some (caller_job hf hj hsp))
  · rintro (⟨m,hm,hrev⟩ | ⟨job,r,k,hc,-⟩)
    · exact Or.inl (Or.inl ⟨m,hp.trans hm,hrev⟩)
    · exact absurd hc (hr job r k)
  · intro _ hdone
    cases pc with
    | done | panicked => cases hj'
    | _ => cases hdone

theorem Refreshes.Sound.modify {s : Refreshes} (h : s.Sound) {f : MapFile}
    (hnew : s.state.NewSecond f.mtime) :
    Refreshes.Sound { s with state := { s.state with
      file := some f, revision := s.state.revision + 1 } } := by
  have hcur : ∀ m, s.state.Current m → PerfMaps.Current { s.state with
      file := some f, revision := s.state.revision + 1 } m := by
    intro m hm
    have hle := hm.1
    refine ⟨Nat.le_succ_of_le hle,fun hrev => ?_⟩
    simp only at hrev
    omega
  refine ⟨fun t ht => ?_,h.one,h.sane,fun m hm => hcur m (h.stored m hm),?_,?_,?_⟩
  · have hf := h.fits t ht
    have hb := hf.began
    refine ⟨Nat.le_succ_of_le hb,fun m hm => ⟨hcur m (hf.pending m hm).1,(hf.pending m hm).2⟩,
      ?_,?_,hf.init,hf.load,hf.caller⟩
    · intro job secs _ hbegan
      simp only at hbegan
      omega
    · intro job r k hr
      refine (hf.reading job r k hr).imp_right ?_
      rintro ⟨hpos,hk,hbk,-⟩
      refine ⟨hpos,Nat.le_succ_of_le hk,hbk,fun hrev => ?_⟩
      simp only at hrev
      omega
  · intro f' hf'
    cases hf'
    exact hnew.1
  · intro f' hf' hsecs
    cases hf'
    exact absurd hsecs hnew.2
  · intro t ht _ _ hbegan
    have hb := (h.fits t ht).began
    simp only at hbegan
    omega

theorem sound_store_mtime {s : Refreshes} (h : s.Sound) {i : Nat} {c : Refresh}
    (hi : s.threads[i]? = some c) {job : Job} {secs : Nat} (hc : c.pc = .store_mtime job secs) :
    Refreshes.Sound ⟨{ s.state with MTIME := secs },
      s.threads.set i { c with pc := .read job .start s.state.revision }⟩ := by
  have hf : s.state.Fits c := h.fits c (List.mem_of_getElem? hi)
  have hj : c.pc.job = some job := by
    rw [hc]
    rfl
  have hp := pending_of_job hj
  have hb := initialising_of_job hj
  have hown : s.state.Fits { c with pc := .read job .start s.state.revision } := by
    refine ⟨hf.began,fun m hm => hf.pending m (hp.trans hm),nofun,?_,
      fun hi' => hf.init (hb.trans hi'),nofun,
      fun hsp => Or.inr (Or.inr (congrArg some (caller_job hf hj hsp)))⟩
    intro job' r k hpc
    cases hpc
    exact Or.inl rfl
  have hway : Refresh.OnItsWay s.state.revision
      { c with pc := .read job .start s.state.revision } :=
    Or.inr ⟨job,.start,s.state.revision,rfl,Or.inr rfl⟩
  exact h.set hi ⟨rfl,rfl⟩ (hown.same ⟨rfl,rfl⟩ fun hi' => hf.init (hb.trans hi'))
    (fun hb' => Or.inl (hb.trans hb')) (fun hr _ => hr) h.sane h.stored (fun _ => Or.inl hway)
    id (Or.inr hway) nofun

theorem sound_store_resolver {s : Refreshes} (h : s.Sound) {i : Nat} {c : Refresh}
    (hi : s.threads[i]? = some c) {m : LoadedMap} (hc : c.pc = .store_resolver m)
    {perf_map : Option LoadedMap} (hready : s.state.RESOLVER = .ready perf_map)
    (hlater : ∀ stored ∈ s.state.RESOLVER.stored, stored.revision ≤ m.revision) :
    Refreshes.Sound ⟨{ s.state with RESOLVER := .ready (some m) },
      s.threads.set i { c with pc := .done }⟩ := by
  have hf : s.state.Fits c := h.fits c (List.mem_of_getElem? hi)
  obtain ⟨hm,hbegan⟩ := hf.pending m (by rw [hc]; rfl)
  have hstored : m.revision = s.state.revision →
      PerfMaps.Stored { s.state with RESOLVER := .ready (some m) } := fun hrev => ⟨m,rfl,hrev⟩
  refine h.set hi ⟨rfl,rfl⟩ (fits_finished hf.began rfl) nofun ?_ nofun ?_ ?_ ?_ (Or.inl rfl) ?_
  · intro hrun
    rw [hready] at hrun
    cases hrun
  · intro m' hm'
    cases hm'
    exact hm
  · rintro (⟨m',hm',hrev⟩ | ⟨job,r,k,hr,-⟩)
    · rw [hc] at hm'
      cases hm'
      exact Or.inr (Or.inl (hstored hrev))
    · rw [hc] at hr
      cases hr
  · rintro ⟨stored,hs,hrev⟩
    have hle := hlater stored hs
    exact hstored (Nat.le_antisymm hm.1 (hrev ▸ hle))
  · intro _ _ hb
    exact Or.inr (Or.inl (hstored (Nat.le_antisymm hm.1 (hb ▸ hbegan))))

theorem spawned_of_pc {s : PerfMaps} {t : Refresh} (h : s.Fits t) (hl : t.pc ≠ .load_resolver)
    (hd : t.pc.finished = false) (hj : t.pc.job = none) : t.spawned = true := by
  by_contra hsp
  rcases h.caller (by simpa using hsp) with hc | hc | hc
  · exact hl hc
  · rw [hd] at hc
    cases hc
  · rw [hj] at hc
    cases hc

theorem no_way {t : Refresh} (hp : t.pc.pending = none) (hr : ∀ job r k, t.pc ≠ .read job r k)
    (revision : Nat) : ¬ t.OnItsWay revision := by
  intro hw
  obtain ⟨job,r,k,hc,-⟩ := hw.reading hp
  exact hr job r k hc

section Places
variable {s : Refreshes} {i n : Nat} {now : Int} {c c' : Refresh} {g : PerfMaps}

theorem refresh_begin (h : s.Sound) (hi : s.threads[i]? = some c) (hc : c.pc = .begin)
    (hn : s.state.next n now c = some (g,c')) : Refreshes.Sound ⟨g,s.threads.set i c'⟩ := by
  have hf : s.state.Fits c := h.fits c (List.mem_of_getElem? hi)
  have hspawned : c.spawned = true :=
    spawned_of_pc hf (by rw [hc]; nofun) (by rw [hc]; rfl) (by rw [hc]; rfl)
  have hidle : ¬ c.OnItsWay s.state.revision :=
    no_way (by rw [hc]; rfl) (by rw [hc]; nofun) s.state.revision
  simp only [PerfMaps.next,hc] at hn
  cases hn
  refine h.move hi ⟨Nat.le_refl _,nofun,nofun,nofun,nofun,nofun,fun hsp => ?_⟩ nofun
    (fun hw => absurd hw hidle) nofun
  rw [hspawned] at hsp
  cases hsp

theorem refresh_load_resolver (h : s.Sound) (hi : s.threads[i]? = some c)
    (hc : c.pc = .load_resolver) (hn : s.state.next n now c = some (g,c')) :
    Refreshes.Sound ⟨g,s.threads.set i c'⟩ := by
  have hf : s.state.Fits c := h.fits c (List.mem_of_getElem? hi)
  have hp : c.pc.pending = none := by
    rw [hc]
    rfl
  have hread : ∀ job r k, c.pc ≠ .read job r k := by
    rw [hc]
    nofun
  simp only [PerfMaps.next,hc,PerfMaps.force] at hn
  cases hr : s.state.RESOLVER with
  | empty =>
    simp only [hr] at hn
    cases hn
    exact sound_force h hi hp hread (fun _ => rfl) hr
  | running => simp [hr] at hn
  | poisoned => exact absurd hr h.sane
  | ready perf_map =>
    simp only [hr] at hn
    cases hn
    refine h.move hi (fits_finished hf.began rfl) nofun
      (fun hw => absurd hw (no_way hp hread s.state.revision)) fun hsp => ?_
    rw [hf.load hc] at hsp
    cases hsp

theorem refresh_touch (h : s.Sound) (hi : s.threads[i]? = some c) {resume : Option LoadedMap}
    (hc : c.pc = .touch resume) (he : s.TimelyAt n now c)
    (hn : s.state.next n now c = some (g,c')) : Refreshes.Sound ⟨g,s.threads.set i c'⟩ := by
  have hread : ∀ job r k, c.pc ≠ .read job r k := by
    rw [hc]
    nofun
  have hj : c.pc.job = some (.init resume) := by
    rw [hc]
    rfl
  cases hf : s.state.file with
  | some f =>
    simp only [PerfMaps.next,hc,hf] at hn
    cases hn
    exact sound_walk h hi hread hj rfl nofun nofun
  | none =>
    -- `touch` creates the file before the thread moves on
    simp only [Refreshes.TimelyAt,hc,hf] at he
    have hmod := h.modify (f := ⟨[],now⟩) (he rfl)
    have hj' : (RefreshPc.open_file (.init resume)).job = some (.init resume) := rfl
    have hwalk := sound_walk hmod (i := i) hi hread hj hj' nofun nofun
    simp only [PerfMaps.next,hc,hf] at hn
    cases hn
    exact hwalk

theorem not_parses_without_file {s : PerfMaps} (h : s.file = none) (map : PerfMap) :
    ¬ s.Parses map := by
  rintro ⟨f,hf,-⟩
  rw [h] at hf
  cases hf

theorem refresh_open_file (h : s.Sound) (hi : s.threads[i]? = some c) {job : Job}
    (hc : c.pc = .open_file job) (hn : s.state.next n now c = some (g,c')) :
    Refreshes.Sound ⟨g,s.threads.set i c'⟩ := by
  have hread : ∀ job r k, c.pc ≠ .read job r k := by
    rw [hc]
    nofun
  have hj : c.pc.job = some job := by
    rw [hc]
    rfl
  simp only [PerfMaps.next,hc] at hn
  cases hfile : s.state.file with
  | none =>
    simp only [hfile] at hn
    exact sound_finish h hi hj (Option.some.inj hn)
      (ends_without hread fun _ => Or.inr (not_parses_without_file hfile))
  | some f =>
    simp only [hfile] at hn
    cases hn
    exact sound_walk h hi hread hj rfl nofun nofun

theorem refresh_metadata (h : s.Sound) (hi : s.threads[i]? = some c) {job : Job}
    (hc : c.pc = .metadata job) (hn : s.state.next n now c = some (g,c')) :
    Refreshes.Sound ⟨g,s.threads.set i c'⟩ := by
  have hread : ∀ job r k, c.pc ≠ .read job r k := by
    rw [hc]
    nofun
  have hj : c.pc.job = some job := by
    rw [hc]
    rfl
  simp only [PerfMaps.next,hc] at hn
  cases hsecs : s.state.file.bind fun f => as_secs f.mtime with
  | none =>
    have hfile : s.state.file = none := by
      cases hfile : s.state.file with
      | none => rfl
      | some f =>
        rw [hfile] at hsecs
        exact absurd hsecs (h.dated f hfile)
    simp only [hsecs] at hn
    exact sound_finish h hi hj (Option.some.inj hn)
      (ends_without hread fun _ => Or.inr (not_parses_without_file hfile))
  | some secs =>
    simp only [hsecs] at hn
    cases hn
    refine sound_walk h hi hread hj rfl nofun ?_
    rintro job' secs' (hpc | hpc) _
    · cases hpc
      exact Option.bind_eq_some_iff.mp hsecs
    · cases hpc

theorem refresh_load_mtime (h : s.Sound) (hi : s.threads[i]? = some c) {job : Job} {secs : Nat}
    (hc : c.pc = .load_mtime job secs) (hn : s.state.next n now c = some (g,c')) :
    Refreshes.Sound ⟨g,s.threads.set i c'⟩ := by
  have hf : s.state.Fits c := h.fits c (List.mem_of_getElem? hi)
  have hread : ∀ job r k, c.pc ≠ .read job r k := by
    rw [hc]
    nofun
  have hj : c.pc.job = some job := by
    rw [hc]
    rfl
  simp only [PerfMaps.next,hc] at hn
  by_cases hm : s.state.MTIME = secs
  · simp only [hm,if_true] at hn
    refine sound_finish h hi hj (Option.some.inj hn) (ends_without hread fun hb => Or.inl ?_)
    obtain ⟨f,hfile,hsecs⟩ := hf.held job secs (Or.inl hc) hb
    exact h.recorded f hfile (hsecs.trans (congrArg some hm.symm))
  · simp only [hm,if_false] at hn
    cases hn
    refine sound_walk h hi hread hj rfl nofun ?_
    rintro job' secs' (hpc | hpc) hb
    · cases hpc
    · cases hpc
      exact hf.held job secs (Or.inl hc) hb

theorem refresh_store_resolver (h : s.Sound) (hi : s.threads[i]? = some c) {m : LoadedMap}
    (hc : c.pc = .store_resolver m) (he : s.TimelyAt n now c)
    (hn : s.state.next n now c = some (g,c')) : Refreshes.Sound ⟨g,s.threads.set i c'⟩ := by
  have hf : s.state.Fits c := h.fits c (List.mem_of_getElem? hi)
  simp only [PerfMaps.next,hc,PerfMaps.force] at hn
  cases hr : s.state.RESOLVER with
  | empty =>
    have hspawned : c.spawned = true :=
      spawned_of_pc hf (by rw [hc]; nofun) (by rw [hc]; rfl) (by rw [hc]; rfl)
    simp only [hr] at hn
    cases hn
    refine sound_force h hi (by rw [hc]; rfl) (by rw [hc]; nofun) (fun hsp => ?_) hr
    rw [hspawned] at hsp
    cases hsp
  | running => simp [hr] at hn
  | poisoned => exact absurd hr h.sane
  | ready perf_map =>
    simp only [hr] at hn
    cases hn
    simp only [Refreshes.TimelyAt,hc] at he
    exact sound_store_resolver h hi hc hr he

end Places

theorem refresh_go {s s' : Refreshes} (h : s.Sound) {i n : Nat} {now : Int}
    (he : s.Timely (.go i n now)) (hs : s.go (PerfMaps.next n now) i = some s') :
    Refreshes.Sound s' := by
  obtain ⟨c,g,c',hi,hn,rfl⟩ := go_eq hs
  have he : s.TimelyAt n now c := he c hi
  cases hc : c.pc with
  | begin => exact refresh_begin h hi hc hn
  | load_resolver => exact refresh_load_resolver h hi hc hn
  | touch resume => exact refresh_touch h hi hc he hn
  | open_file job => exact refresh_open_file h hi hc hn
  | metadata job => exact refresh_metadata h hi hc hn
  | load_mtime job secs => exact refresh_load_mtime h hi hc hn
  | store_mtime job secs =>
    simp only [PerfMaps.next,hc] at hn
    cases hn
    exact sound_store_mtime h hi hc
  | read job r k => exact sound_read_map h hi hc he hn
  | store_resolver m => exact refresh_store_resolver h hi hc he hn
  | done | panicked => simp [PerfMaps.next,hc] at hn

theorem Refreshes.Sound.spawn {s : Refreshes} (h : s.Sound) {t : Refresh}
    (ht : s.state.Fits t) (hi : t.pc.initialising = false) (hd : t.pc.finished = false) :
    Refreshes.Sound (s.spawn t) := by
  have hset : s.Settles → Refreshes.Settles (s.spawn t) := by
    rintro (⟨c,hc,hw⟩ | hrest)
    · exact Or.inl ⟨c,List.mem_append_left _ hc,hw⟩
    · exact Or.inr hrest
  refine ⟨h.fits.spawn ht,h.one.append hi,h.sane,h.stored,h.dated,
    fun f hf hsecs => hset (h.recorded f hf hsecs),?_⟩
  intro c hc hsp hdone hb
  rcases List.mem_append.mp hc with hc | hc
  · exact hset (h.finished c hc hsp hdone hb)
  · rw [List.mem_singleton.mp hc,hd] at hdone
    cases hdone

theorem refresh_step (s : Refreshes) (l : RefreshStep) (s' : Refreshes) (h : s.Sound)
    (he : s.Timely l) (hs : s.step l = some s') : s'.Sound := by
  cases l with
  | get_resolver =>
    cases hs
    have hthread : s.state.Fits ⟨s.state.revision,true,.begin⟩ :=
      ⟨Nat.le_refl _,nofun,nofun,nofun,nofun,nofun,nofun⟩
    have hcaller : s.state.Fits ⟨s.state.revision,false,.load_resolver⟩ :=
      ⟨Nat.le_refl _,nofun,nofun,nofun,nofun,fun _ => rfl,fun _ => Or.inl rfl⟩
    exact (h.spawn hthread rfl rfl).spawn hcaller rfl rfl
  | modify content mtime =>
    simp only [Refreshes.step] at hs
    split at hs
    · cases hs
      exact h.modify he
    · cases hs
  | go i n now => exact refresh_go h he hs

theorem started_sound : Refreshes.Sound ⟨.started,[]⟩ where
  fits := nofun
  one := by
    intro i j p q hp
    simp at hp
  sane := nofun
  stored := nofun
  dated := nofun
  recorded := nofun
  finished := nofun

theorem not_on_its_way {s : PerfMaps} {t : Refresh} (h : s.Fits t)
    (hdone : t.spawned = true → t.pc.finished = true) (hidle : s.RESOLVER ≠ .running)
    (revision : Nat) : ¬ t.OnItsWay revision := by
  have hpc : t.pc = .load_resolver ∨ t.pc.finished = true := by
    cases hsp : t.spawned with
    | true => exact Or.inr (hdone hsp)
    | false =>
      rcases h.caller hsp with hl | hd | hj
      · exact Or.inl hl
      · exact Or.inr hd
      · exact absurd (h.init (initialising_of_job hj)) hidle
  obtain ⟨began,spawned,pc⟩ := t
  rintro (⟨m,hm,-⟩ | ⟨job,r,k,hr,-⟩)
  · cases pc with
    | load_resolver | done | panicked => cases hm
    | _ => rcases hpc with hl | hd <;> contradiction
  · cases hr
    rcases hpc with hl | hd <;> contradiction

/-- If no modification stays within the second that is recorded, and no map replaces one that
was read after a later modification, the resolver ends up with the map of the current file. It
has none yet while it is being initialised. -/
theorem refreshes_fresh {ls : List RefreshStep}
    (ha : Along Refreshes.step Refreshes.Timely ⟨.started,[]⟩ ls) {s : Refreshes}
    (hrun : run Refreshes.step ⟨.started,[]⟩ ls = some s) (hidle : s.state.RESOLVER ≠ .running) :
    s.Fresh := by
  have hs : s.Sound := invariant_along refresh_step started_sound ha hrun
  rintro hdone ⟨t,ht,hsp,hb⟩ map hp
  rcases hs.finished t ht hsp (hdone t ht hsp) hb with ⟨c,hc,hw⟩ | ⟨m,hm,hrev⟩ | hn
  · exact absurd hw (not_on_its_way (hs.fits c hc) (hdone c hc) hidle _)
  · obtain ⟨f,hf,hnew⟩ := (hs.stored m hm).2 hrev
    obtain ⟨f',hf',hmap⟩ := hp
    rw [hf] at hf'
    cases hf'
    rw [hmap] at hnew
    cases hnew
    rw [hm]
    rfl
  · exact absurd hp (hn map)

def RefreshStep.steps (i n : Nat) : List RefreshStep :=
  List.replicate n (.go i 8192 100100000000)

/-- One lookup, which creates the file, a line that is written at `mtime`, and one more lookup
whose thread takes `n` steps. The line is `1 2 f`. -/
def RefreshStep.lookups (mtime : Int) (n : Nat) : List RefreshStep :=
  [.get_resolver] ++ steps 1 7 ++ steps 0 4 ++ [.modify [49,32,50,32,102,10] mtime] ++
    [.get_resolver] ++ steps 2 n ++ steps 3 1

theorem refreshes_fresh_next_second :
    ∃ s, run Refreshes.step ⟨.started,[]⟩ (RefreshStep.lookups 101200000000 8) = some s ∧
      s.state.RESOLVER.stored.map LoadedMap.map = some ⟨[⟨1,3,['f']⟩]⟩ := by
  have ha : Along Refreshes.step Refreshes.Timely ⟨.started,[]⟩
      (RefreshStep.lookups 101200000000 8) := by decide +kernel
  obtain ⟨s,hs⟩ : ∃ s, run Refreshes.step ⟨.started,[]⟩ (RefreshStep.lookups 101200000000 8) =
      some s := ⟨_,rfl⟩
  obtain ⟨hdone,hlast,hidle,hparses⟩ : (∀ t ∈ s.threads, t.spawned = true →
      t.pc.finished = true) ∧ (∃ t ∈ s.threads, t.spawned = true ∧ t.began = s.state.revision) ∧
      s.state.RESOLVER ≠ .running ∧ s.state.Parses ⟨[⟨1,3,['f']⟩]⟩ := by
    cases hs
    exact ⟨by decide +kernel,by decide +kernel,by decide +kernel,_,rfl,by decide +kernel⟩
  exact ⟨s,hs,refreshes_fresh ha hs hidle hdone hlast _ hparses⟩

/-- What is written later in the same second is never read. -/
theorem same_second_missed :
    ∃ s, run Refreshes.step ⟨.started,[]⟩ (RefreshStep.lookups 100900000000 4) = some s ∧
      ¬ s.Fresh := by
  obtain ⟨s,hs⟩ : ∃ s, run Refreshes.step ⟨.started,[]⟩ (RefreshStep.lookups 100900000000 4) =
      some s := ⟨_,rfl⟩
  refine ⟨s,hs,fun hfresh => ?_⟩
  obtain ⟨hdone,hlast,hparses,hstored⟩ : (∀ t ∈ s.threads, t.spawned = true →
      t.pc.finished = true) ∧ (∃ t ∈ s.threads, t.spawned = true ∧ t.began = s.state.revision) ∧
      s.state.Parses ⟨[⟨1,3,['f']⟩]⟩ ∧
      s.state.RESOLVER.stored.map LoadedMap.map = some ⟨[]⟩ := by
    cases hs
    exact ⟨by decide +kernel,by decide +kernel,⟨_,rfl,by decide +kernel⟩,by decide +kernel⟩
  have hnew := hfresh hdone hlast _ hparses
  rw [hstored] at hnew
  cases hnew

end Pprof
