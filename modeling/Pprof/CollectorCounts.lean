import Pprof.Collector
import Pprof.Eviction
import Pprof.Lib.Ledger
import Mathlib.Algebra.Order.BigOperators.Group.List
import Mathlib.Tactic.Abel
set_option autoImplicit false

/-! The collector keeps counts: however entries move from the buckets to the buffer and
on to the file, for every key the counts of its entries add up to what was added. -/

namespace Pprof
open DistinctKeys FormalSum Iteration Ledger Memory Runs TempFile

variable {T : Type}

def Entry.pair (e : Entry T) : T × ℤ := (e.item,e.count)

theorem Added.formalSum [BEq T] [EquivBEq T] {key : T} {count : Int} {l l' : List (Entry T)}
    {evict : Option (Entry T)} (h : Added key count l l' evict)
    (hd : Distinct Entry.item l) :
    ∃ r, (key == r) = true ∧ (r = key ∨ ∃ e ∈ l, e.item = r) ∧
      formalSum (l'.map Entry.pair) + formalSum (evict.toList.map Entry.pair) =
        formalSum (l.map Entry.pair) + Finsupp.single r count := by
  cases h with
  | hit e he hk =>
    obtain ⟨l₁,l₂,rfl,hg⟩ := hd.modify he hk
    have hb : (l₁ ++ e :: l₂).map (bump key count) = l₁ ++ ⟨e.item,e.count+count⟩ :: l₂ :=
      hg fun x => ⟨x.item,x.count+count⟩
    have hs : Finsupp.single e.item (e.count+count) =
        Finsupp.single e.item e.count + Finsupp.single e.item count := Finsupp.single_add ..
    refine ⟨e.item,BEq.symm hk,.inr ⟨e,he,rfl⟩,?_⟩
    rw [hb]
    simp only [List.map_append,List.map_cons,formalSum_append,formalSum_cons,Entry.pair,hs,
      Option.toList_none,List.map_nil,formalSum_nil]
    abel
  | append =>
    refine ⟨key,BEq.rfl,.inl rfl,?_⟩
    simp [Entry.pair]
  | evict i old hne hlen hi =>
    obtain ⟨l₁,l₂,hl,hs⟩ := set_split hi ⟨key,count⟩
    refine ⟨key,BEq.rfl,.inl rfl,?_⟩
    rw [hs,hl]
    simp [Entry.pair]
    abel

section Slots
variable [BEq T] [Hashable T]

/-- Equal keys are counted in one slot as far as they lead to one bucket. -/
def sameSlot (a b : T) : Bool := a == b && decide (bucketOf a = bucketOf b)

/-- The sums that a slot may come to hold: of the counts added for its key from one
`add` to a later one. -/
def SumsInRange (adds : List (T × ℤ)) : Prop :=
  ∀ l, l <:+: adds → ∀ k, InIsize (total (sameSlot · k) l)

theorem SumsInRange.start {adds later : List (T × ℤ)} (h : SumsInRange (adds ++ later)) :
    SumsInRange adds := fun l hl =>
  h l (hl.trans (List.prefix_append adds later).isInfix)

theorem sameSlot_of_lawful [LawfulHashable T] (a b : T) : sameSlot a b = (a == b) := by
  by_cases h : a == b
  · have hh := LawfulHashable.hash_eq a b h
    simp [sameSlot,h,bucketOf,hh]
  · simp [sameSlot,h]

theorem sumsInRange_of_lawful [LawfulHashable T] {adds : List (T × ℤ)}
    (h : ∀ l, l <:+: adds → ∀ k, InIsize (total (· == k) l)) : SumsInRange adds := by
  intro l hl k
  simp only [sameSlot_of_lawful]
  exact h l hl k

theorem sumsInRange_of_nonneg {adds : List (T × ℤ)} (h : ∀ a ∈ adds, 0 ≤ a.2)
    (hs : (adds.map Prod.snd).sum < 2^63) : SumsInRange adds := by
  rintro l ⟨s,t,rfl⟩ k
  have hsum : ∀ m : List (T × ℤ), (∀ a ∈ m, 0 ≤ a.2) → 0 ≤ (m.map Prod.snd).sum := by
    intro m hm
    apply List.sum_nonneg
    intro n hn
    obtain ⟨a,ha,rfl⟩ := List.mem_map.mp hn
    exact hm a ha
  have h₀ := total_nonneg (p := (sameSlot · k)) fun a (ha : a ∈ l) => h a (by simp [ha])
  have h₁ := total_le_sum (p := (sameSlot · k)) fun a (ha : a ∈ l) => h a (by simp [ha])
  have hsl := hsum s fun a ha => h a (by simp [ha])
  have htl := hsum t fun a ha => h a (by simp [ha])
  simp only [List.map_append,List.sum_append] at hs
  unfold InIsize
  omega

/-- What the hash counter holds, given the history of what was added. After the last
posting that a live entry takes up there are only postings to other slots. -/
structure SlotsPosted (c : HashCounter T) (hist : List (T × ℤ)) : Prop where
  distinct : ∀ i, Distinct Entry.item (c.buckets.get i).live
  placed : ∀ i, ∀ e ∈ (c.buckets.get i).live, bucketOf e.item = i
  posted : ∀ i, ∀ e ∈ (c.buckets.get i).live, ∃ l, l <:+ hist ∧ Posted sameSlot l e.pair

theorem SlotsPosted.arranged {c : HashCounter T} {hist : List (T × ℤ)} (h : SlotsPosted c hist) :
    Arranged c := ⟨h.distinct,h.placed⟩

theorem posted_snoc_miss {hist : List (T × ℤ)} {e : T × ℤ} {key : T} (count : ℤ)
    (h : ∃ l, l <:+ hist ∧ Posted sameSlot l e) (hk : sameSlot key e.1 = false) :
    ∃ l, l <:+ hist ++ [(key,count)] ∧ Posted sameSlot l e := by
  obtain ⟨l,⟨s,rfl⟩,hp⟩ := h
  exact ⟨l ++ [(key,count)],⟨s,by simp⟩,hp.miss hk⟩

theorem sameSlot_beq {a b : T} (h : sameSlot a b = true) : (a == b) = true := by
  simp only [sameSlot,Bool.and_eq_true] at h
  exact h.1

theorem SlotsPosted.entry {c : HashCounter T} {hist : List (T × ℤ)} (h : SlotsPosted c hist)
    {e : Entry T} (he : e ∈ c.live) : ∃ l, l <:+ hist ∧ Posted sameSlot l e.pair := by
  obtain ⟨i,hi⟩ := mem_live_bucket he
  exact h.posted i e hi

variable [EquivBEq T]

theorem sameSlot_refl (a : T) : sameSlot a a = true := by simp [sameSlot]

theorem SlotsPosted.sameSlot_eq {c : HashCounter T} {hist : List (T × ℤ)}
    (h : SlotsPosted c hist) (key : T) {e : Entry T}
    (he : e ∈ (c.buckets.get (bucketOf key)).live) : sameSlot key e.item = (e.item == key) := by
  have hp := h.placed _ e he
  simp [sameSlot,hp,BEq.comm]

theorem Added.posted {key : T} {count : Int} {l l' : List (Entry T)}
    {evict : Option (Entry T)} {hist : List (T × ℤ)} (h : Added key count l l' evict)
    (hs : ∀ e ∈ l, sameSlot key e.item = (e.item == key))
    (hp : ∀ e ∈ l, ∃ m, m <:+ hist ∧ Posted sameSlot m e.pair) :
    ∀ e ∈ l', ∃ m, m <:+ hist ++ [(key,count)] ∧ Posted sameSlot m e.pair := by
  have hnew : ∃ m, m <:+ hist ++ [(key,count)] ∧ Posted sameSlot m (⟨key,count⟩ : Entry T).pair :=
    ⟨[(key,count)],List.suffix_append _ _,Posted.new count (sameSlot_refl key)⟩
  have hmiss : ∀ e ∈ l, (e.item == key) = false →
      ∃ m, m <:+ hist ++ [(key,count)] ∧ Posted sameSlot m e.pair := fun e he hk =>
    posted_snoc_miss count (hp e he) (by rw [Entry.pair,hs e he,hk])
  intro x hx
  cases h with
  | hit =>
    obtain ⟨e,he,rfl⟩ := List.mem_map.mp hx
    by_cases hk : e.item == key
    · obtain ⟨m,⟨s,rfl⟩,hm⟩ := hp e he
      rw [bump,if_pos hk]
      exact ⟨m ++ [(key,count)],⟨s,by simp⟩,hm.hit ((hs e he).trans hk)⟩
    · rw [bump,if_neg hk]
      exact hmiss e he (by simpa using hk)
  | append hne =>
    rcases List.mem_append.mp hx with hx | hx
    · exact hmiss x hx (hne x hx)
    · rw [List.mem_singleton.mp hx]
      exact hnew
  | evict i old hne =>
    rcases List.mem_or_eq_of_mem_set hx with hx | rfl
    · exact hmiss x hx (hne x hx)
    · exact hnew

theorem SlotsPosted.add {c c' : HashCounter T} {hist : List (T × ℤ)} (h : SlotsPosted c hist)
    {key : T} {count : Int} {evict : Option (Entry T)}
    (ha : c.add key count = .ok (c',evict)) : SlotsPosted c' (hist ++ [(key,count)]) := by
  have harr := h.arranged.add ha
  obtain ⟨hadd,hother,-⟩ := HashCounter.add_ok ha
  have hl := hadd.posted (fun e he => h.sameSlot_eq key he) fun e he => h.posted _ e he
  refine ⟨harr.distinct,harr.placed,fun j => ?_⟩
  by_cases hj : j = bucketOf key
  · rw [hj]
    exact hl
  · rw [hother j hj]
    intro e he
    refine posted_snoc_miss count (h.posted j e he) ?_
    have hb := h.placed j e he
    simp [sameSlot,Entry.pair,hb,Ne.symm hj]

theorem SlotsPosted.add_total {c : HashCounter T} {hist : List (T × ℤ)} (h : SlotsPosted c hist)
    {key : T} {count : Int} (hr : SumsInRange (hist ++ [(key,count)])) :
    ∃ r, c.add key count = .ok r := by
  apply HashCounter.add_total
  intro e he hk
  obtain ⟨l,⟨s,rfl⟩,hp⟩ := h.posted _ e he
  have hkey : sameSlot key e.item = true := (h.sameSlot_eq key he).trans hk
  have hsum : e.count+count = total (sameSlot · e.item) (l ++ [(key,count)]) := (hp.hit hkey).2
  rw [hsum]
  exact hr (l ++ [(key,count)]) ⟨s,[],by simp⟩ e.item

end Slots

section Counts
variable [Layout (Entry T)] [Target]

/-- A push that succeeds adds its entry; where the others lie may change. -/
theorem push_ok_perm {a a' : TempFdArray (Entry T)} {xs : List (Entry T)} (h : a.Holds xs)
    {entry : Entry T} {fault : Option Nat} (hp : a.push entry fault = (.ok (),a')) :
    ∃ xs', a'.Holds xs' ∧ (a'.buffered ++ xs').Perm (entry :: (a.buffered ++ xs)) := by
  rcases h.push_ok hp with ⟨hh,hb⟩ | ⟨hh,hb⟩
  · refine ⟨xs,hh,?_⟩
    rw [hb,List.append_assoc]
    exact List.perm_middle
  · refine ⟨xs ++ a.buffered,hh,?_⟩
    rw [hb]
    simpa using List.perm_append_comm

variable [BEq T] [Hashable T]

structure Collector.Records (c : Collector T) (hist : List (T × ℤ)) : Prop where
  slots : SlotsPosted c.map hist
  spilled : ∃ xs, c.temp_array.Holds xs ∧
    Balances sameSlot hist ((c.map.live ++ (c.temp_array.buffered ++ xs)).map Entry.pair)

theorem Collector.Records.try_iter {c : Collector T} {hist : List (T × ℤ)} (h : c.Records hist) :
    ∃ it, c.try_iter none = .ok it ∧ Balances sameSlot hist ((collect it).map Entry.pair) := by
  obtain ⟨xs,hxs,hbal⟩ := h.spilled
  obtain ⟨it,hit,hc⟩ := collector_try_iter hxs
  rw [← hc] at hbal
  exact ⟨it,hit,hbal⟩

theorem records_nil_empty {c : Collector T} (h : c.Records []) :
    (∀ i, (c.map.buckets.get i).live = []) ∧ c.temp_array.buffered = [] ∧
      c.temp_array.Holds [] := by
  obtain ⟨xs,hxs,hbal⟩ := h.spilled
  have hempty : c.map.live ++ (c.temp_array.buffered ++ xs) = [] := by
    apply List.eq_nil_iff_forall_not_mem.mpr
    intro e he
    have hm := hbal.mem (List.mem_map_of_mem he)
    cases hm
  simp only [List.append_eq_nil_iff] at hempty
  obtain ⟨-,hbuf,rfl⟩ := hempty
  refine ⟨fun i => ?_,hbuf,hxs⟩
  apply List.eq_nil_iff_forall_not_mem.mpr
  intro e he
  obtain ⟨l,hl,hm,-⟩ := h.slots.posted i e he
  rw [List.suffix_nil.mp hl] at hm
  cases hm

theorem collector_new [Inhabited T] :
    ∃ c : Collector T, Collector.new false = .ok c ∧ c.Records [] := by
  have hlive : (default : HashCounter T).live = [] := by
    apply List.eq_nil_iff_forall_not_mem.mpr
    intro e he
    obtain ⟨i,hi⟩ := mem_live_bucket he
    rw [live_default i] at hi
    cases hi
  have harr : Arranged (default : HashCounter T) := arranged_default
  refine ⟨⟨default,_⟩,rfl,⟨harr.distinct,harr.placed,?_⟩,[],⟨rfl,rfl,rfl⟩,?_⟩
  · intro i e he
    rw [live_default i] at he
    cases he
  · rw [hlive]
    exact balances_nil

def Collector.Empty (c : Collector T) : Prop :=
  ∃ it, c.try_iter none = .ok it ∧ collect it = []

theorem Collector.Records.empty {c : Collector T} (h : c.Records []) : c.Empty := by
  obtain ⟨it,hit,hbal⟩ := h.try_iter
  refine ⟨it,hit,List.eq_nil_iff_forall_not_mem.mpr fun e he => ?_⟩
  have hm := hbal.mem (List.mem_map_of_mem he)
  cases hm

theorem collector_new_empty [Inhabited T] {c : Collector T} (h : Collector.new false = .ok c) :
    c.Empty := by
  obtain ⟨c₀,h₀,hr⟩ := collector_new (T := T)
  rw [h] at h₀
  cases h₀
  exact hr.empty

theorem collector_add_ok {c c' : Collector T} {xs : List (Entry T)} (h : c.temp_array.Holds xs)
    {key : T} {count : Int} {fault : Option Nat} (ha : c.add key count fault = .ok (.ok (),c')) :
    ∃ evict xs', c.map.add key count = .ok (c'.map,evict) ∧ c'.temp_array.Holds xs' ∧
      (c'.temp_array.buffered ++ xs').Perm (evict.toList ++ (c.temp_array.buffered ++ xs)) := by
  rcases collector_add_cases ha with ⟨hm,-,ht⟩ | ⟨evict,hm,hp⟩
  · refine ⟨none,xs,hm,?_,?_⟩
    · rw [ht]
      exact h
    · rw [ht]
      exact .refl _
  · obtain ⟨xs',hh,hperm⟩ := push_ok_perm h hp
    exact ⟨some evict,xs',hm,hh,hperm⟩

theorem collector_add_none {c c' : Collector T} {key : T} {count : Int}
    {result : Except IoError Unit} (h : c.add key count none = .ok (result,c')) :
    result = .ok () := by
  rcases collector_add_cases h with ⟨-,hres,-⟩ | ⟨evict,-,hp⟩
  · exact hres
  · obtain ⟨a,hn⟩ := push_none c.temp_array evict
    rw [hn] at hp
    exact (Prod.mk.inj hp).1.symm

variable [EquivBEq T]

theorem Collector.Records.add {c c' : Collector T} {hist : List (T × ℤ)} (h : c.Records hist)
    {key : T} {count : Int} {fault : Option Nat}
    (ha : c.add key count fault = .ok (.ok (),c')) : c'.Records (hist ++ [(key,count)]) := by
  obtain ⟨xs,hxs,hbal⟩ := h.spilled
  obtain ⟨evict,xs',hm,hxs',hperm⟩ := collector_add_ok hxs ha
  have hslots := h.slots.add hm
  obtain ⟨hadd,-,l₁,l₂,hl,hl'⟩ := HashCounter.add_ok hm
  obtain ⟨r,hr,hmem,hsum⟩ := hadd.formalSum (h.slots.distinct _)
  have hlive : ∀ e ∈ (c.map.buckets.get (bucketOf key)).live,
      e.pair ∈ (c.map.live ++ (c.temp_array.buffered ++ xs)).map Entry.pair := by
    intro e he
    apply List.mem_map_of_mem
    rw [hl]
    simp [he]
  refine ⟨hslots,xs',hxs',hbal.snoc (r := r) ?_ ?_ ?_ ?_⟩
  · rcases hmem with rfl | ⟨e,he,rfl⟩
    · exact sameSlot_refl r
    · rw [h.slots.sameSlot_eq key he,BEq.comm]
      exact hr
  · rcases hmem with rfl | ⟨e,he,rfl⟩
    · exact .inl rfl
    · exact .inr ⟨e.pair,hlive e he,rfl⟩
  · have hspill := formalSum_perm (hperm.map Entry.pair)
    rw [List.map_append,List.map_append,formalSum_append,formalSum_append] at hspill
    rw [hl,hl']
    simp only [List.map_append,formalSum_append] at hspill ⊢
    calc FormalSum.formalSum (l₁.map Entry.pair) +
          (FormalSum.formalSum ((c'.map.buckets.get (bucketOf key)).live.map Entry.pair) +
            FormalSum.formalSum (l₂.map Entry.pair)) +
          (FormalSum.formalSum (c'.temp_array.buffered.map Entry.pair) +
            FormalSum.formalSum (xs'.map Entry.pair)) =
        (FormalSum.formalSum ((c'.map.buckets.get (bucketOf key)).live.map Entry.pair) +
            FormalSum.formalSum (evict.toList.map Entry.pair)) +
          (FormalSum.formalSum (l₁.map Entry.pair) + FormalSum.formalSum (l₂.map Entry.pair) +
            (FormalSum.formalSum (c.temp_array.buffered.map Entry.pair) +
              FormalSum.formalSum (xs.map Entry.pair))) := by
          rw [hspill]
          abel
      _ = _ := by
          rw [hsum]
          abel
  · intro x hx
    obtain ⟨e,he,rfl⟩ := List.mem_map.mp hx
    rcases List.mem_append.mp he with he | he
    · obtain ⟨l,hl,hp⟩ := hslots.entry he
      exact ⟨l,hl.isInfix,hp⟩
    · have hold : e.pair ∈ (c.map.live ++ (c.temp_array.buffered ++ xs)).map Entry.pair := by
        rcases List.mem_append.mp (hperm.mem_iff.mp he) with he | he
        · exact hlive e (hadd.evicted e he)
        · exact List.mem_map_of_mem (List.mem_append_right _ he)
      obtain ⟨l,hl,hp⟩ := hbal.posted _ hold
      exact ⟨l,hl.trans (List.prefix_append hist _).isInfix,hp⟩

theorem Collector.Records.add_none {c c' : Collector T} {hist : List (T × ℤ)} (h : c.Records hist)
    {key : T} {count : Int} {result : Except IoError Unit}
    (ha : c.add key count none = .ok (result,c')) : c'.Records (hist ++ [(key,count)]) := by
  obtain rfl := collector_add_none ha
  exact h.add ha

theorem Collector.Records.add_total {c : Collector T} {hist : List (T × ℤ)} (h : c.Records hist)
    {key : T} {count : Int} (hr : SumsInRange (hist ++ [(key,count)])) :
    ∃ c', c.add key count none = .ok (.ok (),c') ∧ c'.Records (hist ++ [(key,count)]) := by
  obtain ⟨⟨result,c'⟩,ha⟩ := collector_add_of_map (h.slots.add_total hr) none
  obtain rfl := collector_add_none ha
  exact ⟨c',ha,h.add ha⟩

inductive CollectorOp (T : Type) where
  | add (key : T) (count : Int)
  | try_iter

def adds : List (CollectorOp T) → List (T × ℤ)
  | [] => []
  | .add key count :: ops => (key,count) :: adds ops
  | .try_iter :: ops => adds ops

def CollectorOp.isAdd : CollectorOp T → Bool
  | .add .. => true
  | .try_iter => false

/-- One operation with the file system working. There is no next state after a panic
or an I/O error. -/
def Collector.step (c : Collector T) : CollectorOp T → Option (Collector T)
  | .add key count =>
    match c.add key count none with
    | .ok (.ok (),c) => some c
    | _ => none
  | .try_iter =>
    match c.try_iter none with
    | .ok _ => some c
    | .error _ => none

theorem Collector.Records.run {c : Collector T} {hist : List (T × ℤ)} (h : c.Records hist)
    {ops : List (CollectorOp T)} (hr : SumsInRange (hist ++ adds ops)) :
    ∃ c', Runs.run Collector.step c ops = some c' ∧
      Runs.run Collector.step c (ops.filter CollectorOp.isAdd) = some c' ∧
      c'.Records (hist ++ adds ops) := by
  induction ops generalizing c hist with
  | nil => exact ⟨c,rfl,rfl,by simpa [adds] using h⟩
  | cons op ops ih =>
    cases op with
    | add key count =>
      have hcons : hist ++ adds (.add key count :: ops) = hist ++ [(key,count)] ++ adds ops := by
        simp [adds]
      rw [hcons] at hr ⊢
      obtain ⟨c₁,ha,h₁⟩ := h.add_total hr.start
      have hs : c.step (.add key count) = some c₁ := by simp only [Collector.step,ha]
      obtain ⟨c',hrun,hfil,h'⟩ := ih h₁ hr
      refine ⟨c',?_,?_,h'⟩
      · rw [run_cons_some hs,hrun]
      · rw [List.filter_cons_of_pos rfl,run_cons_some hs,hfil]
    | try_iter =>
      obtain ⟨it,hit,-⟩ := h.try_iter
      have hs : c.step .try_iter = some c := by simp only [Collector.step,hit]
      obtain ⟨c',hrun,hfil,h'⟩ := ih h hr
      refine ⟨c',?_,?_,h'⟩
      · rw [run_cons_some hs,hrun]
      · rw [List.filter_cons_of_neg (by simp [CollectorOp.isAdd]),hfil]

/-- For every key `try_iter` yields the counts that were added, however often entries
were evicted and the buffer was flushed, and no other key; what it yields depends on
the calls of `add` alone. -/
theorem collector_conserves_counts [Inhabited T] {c₀ : Collector T}
    (hnew : Collector.new false = .ok c₀) (ops : List (CollectorOp T))
    (hr : SumsInRange (adds ops)) :
    ∃ c it, run Collector.step c₀ ops = some c ∧
      run Collector.step c₀ (ops.filter CollectorOp.isAdd) = some c ∧ c.try_iter none = .ok it ∧
      (∀ k, total (· == k) ((collect it).map Entry.pair) = total (· == k) (adds ops)) ∧
      ∀ e ∈ collect it, e.item ∈ (adds ops).map Prod.fst := by
  obtain ⟨c,hc,h₀⟩ := collector_new (T := T)
  rw [hnew] at hc
  cases hc
  obtain ⟨c,hrun,hfil,h⟩ := h₀.run hr
  obtain ⟨it,hit,hbal⟩ := h.try_iter
  rw [List.nil_append] at hbal
  refine ⟨c,it,hrun,hfil,hit,?_,?_⟩
  · intro k
    apply hbal.total_eq
    intro a b hab
    exact BEq.congr_left (sameSlot_beq hab)
  · intro e he
    exact hbal.mem (List.mem_map_of_mem (f := Entry.pair) he)

end Counts

theorem collector_conserves_counts_nat :
    letI : Target := ⟨128,2,false,Nat.two_pos⟩
    letI : Layout (Entry Nat) := indexedLayout (Entry Nat) 1 Nat.one_pos
    ∃ c₀ c it, Collector.new false = .ok c₀ ∧
      run Collector.step c₀ [.add 7 1,.try_iter,.add 8 1,.add 7 2] = some c ∧
      c.try_iter none = .ok it ∧ total (· == 7) ((collect it).map Entry.pair) = 3 := by
  let _ : Target := ⟨128,2,false,Nat.two_pos⟩
  let _ : Layout (Entry Nat) := indexedLayout (Entry Nat) 1 Nat.one_pos
  obtain ⟨c₀,hnew,-⟩ := collector_new (T := Nat)
  have hr : SumsInRange (adds [.add 7 1,.try_iter,.add 8 1,.add 7 2]) :=
    sumsInRange_of_nonneg (by simp [adds]) (by simp [adds])
  obtain ⟨c,it,hrun,-,hit,htotal,-⟩ := collector_conserves_counts hnew _ hr
  exact ⟨c₀,c,it,hnew,hrun,hit,by rw [htotal]; rfl⟩

end Pprof
