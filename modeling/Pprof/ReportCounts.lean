import Pprof.CollectorCounts
import Pprof.Report
import Mathlib.Tactic.Abel
set_option autoImplicit false

/-! A report is a second ledger over the first: the hash map books the collector's
entries under the first of equal keys. With positive counts nothing is filtered out. -/

namespace Pprof
open Assoc FormalSum Iteration Ledger Memory TempFile

section Counting
variable {K : Type} [BEq K]

def countAll : List (K × Int) → AssocMap K Int → Except Panic (AssocMap K Int)
  | [], m => pure m
  | (key,count) :: l, m => do
    let m ← countInto m key count
    countAll l m

/-- The hash map books under the first of equal keys. -/
abbrev Tallies (l : List (K × Int)) (m : AssocMap K Int) : Prop :=
  Balances (fun a b => a == b) l m.entries

variable [EquivBEq K]

theorem Tallies.total_eq {l : List (K × Int)} {m : AssocMap K Int} (h : Tallies l m) (k : K) :
    total (· == k) m.entries = total (· == k) l := by
  apply Balances.total_eq h
  intro a b hab
  exact BEq.congr_left hab

theorem countInto_ok {l : List (K × Int)} {m : AssocMap K Int} (h : Tallies l m) {key : K}
    {count : Int} (hr : InIsize (total (· == key) l + count)) :
    ∃ m', countInto m key count = .ok m' ∧ Tallies (l ++ [(key,count)]) m' := by
  have hold : ∀ e ∈ m.entries,
      ∃ l', l' <:+: l ++ [(key,count)] ∧ Posted (fun a b => a == b) l' e := by
    intro e he
    obtain ⟨l',hl,hp⟩ := h.posted e he
    exact ⟨l',hl.trans (List.prefix_append l _).isInfix,hp⟩
  cases hg : m.get key with
  | none =>
    obtain ⟨m',hi,he⟩ := insert_of_get_none (v := count) hg
    refine ⟨m',by simp only [countInto,hg,hi]; rfl,h.snoc BEq.rfl (.inl rfl) (by simp [he]) ?_⟩
    intro e hm
    rw [he] at hm
    rcases List.mem_append.mp hm with hm | hm
    · exact hold e hm
    · rw [List.mem_singleton.mp hm]
      exact ⟨[(key,count)],(List.suffix_append l _).isInfix,Posted.new count BEq.rfl⟩
  | some value =>
    obtain ⟨l₁,key',l₂,hk,hm,hset⟩ := set_entries hg
    have htotal := (total_of_get_some hg).symm.trans (h.total_eq key)
    rw [← htotal] at hr
    have hadd : addIsize value count = .ok (value+count) := if_pos hr
    have hin : (key',value) ∈ m.entries := by simp [hm]
    have hpost : Posted (fun a b => a == b) l (key',value) := by
      have hcongr : (fun a : K => a == key') = fun a => a == key := by
        funext a
        exact BEq.congr_right hk
      exact ⟨h.mem hin,by simp only [hcongr]; exact htotal⟩
    refine ⟨m.set key (value+count),by simp only [countInto,hg,hadd]; rfl,
      h.snoc (r := key') (BEq.symm hk) (.inr ⟨_,hin,rfl⟩) ?_ ?_⟩
    · rw [hset,hm]
      simp only [formalSum_append,formalSum_cons,Finsupp.single_add]
      abel
    · intro e he
      rw [hset] at he
      rcases List.mem_append.mp he with he | he
      · exact hold e (by simp [hm,he])
      · rcases List.mem_cons.mp he with rfl | he
        · exact ⟨l ++ [(key,count)],List.infix_rfl,hpost.hit (BEq.symm hk)⟩
        · exact hold e (by simp [hm,he])

/-- Neither the insertion that finds its key nor an overflow is met: all the counts
together stay in range. -/
theorem countAll_ok {l₀ l : List (K × Int)} {m : AssocMap K Int} (h : Tallies l₀ m)
    (hpos : ∀ a ∈ l₀ ++ l, 0 ≤ a.2) (hsum : ((l₀ ++ l).map Prod.snd).sum < 2^63) :
    ∃ m', countAll l m = .ok m' ∧ Tallies (l₀ ++ l) m' := by
  induction l generalizing l₀ m with
  | nil => exact ⟨m,rfl,by simpa using h⟩
  | cons a l ih =>
    have hcons : l₀ ++ a :: l = l₀ ++ [a] ++ l := by simp
    rw [hcons] at hpos hsum ⊢
    have hr : InIsize (total (· == a.1) l₀ + a.2) := by
      have h₁ := total_nonneg (p := (· == a.1)) fun x (hx : x ∈ l₀) => hpos x (by simp [hx])
      have h₂ := total_le_sum (p := (· == a.1)) fun x (hx : x ∈ l₀) => hpos x (by simp [hx])
      have h₃ := total_nonneg (p := fun _ => true) fun x (hx : x ∈ l) => hpos x (by simp [hx])
      have h₄ := total_le_sum (p := fun _ => true) fun x (hx : x ∈ l) => hpos x (by simp [hx])
      have ha := hpos a (by simp)
      simp only [List.map_append,List.sum_append,List.map_singleton,List.sum_singleton] at hsum
      unfold InIsize
      omega
    obtain ⟨m₁,hm₁,h₁⟩ := countInto_ok h hr
    obtain ⟨m',hm',h'⟩ := ih h₁ hpos hsum
    exact ⟨m',bind_eq_ok.mpr ⟨m₁,hm₁,hm'⟩,h'⟩

theorem countAll_empty {l : List (K × Int)} (hpos : ∀ n ∈ l.map Prod.snd, 0 ≤ n)
    (hsum : (l.map Prod.snd).sum < 2^63) :
    ∃ m, countAll l AssocMap.empty = .ok m ∧ Tallies l m := by
  have h₀ : Tallies [] (AssocMap.empty : AssocMap K Int) := balances_nil
  exact countAll_ok h₀ (fun a ha => hpos a.2 (List.mem_map_of_mem ha)) hsum

end Counting

section Entries
variable {F : Type} [Frame F]

theorem gatherUnresolved_eq {es : List (Entry (UnresolvedFrames F))}
    (h : ∀ e ∈ es, 0 < e.count) (m : AssocMap (UnresolvedFrames F) Int) :
    gatherUnresolved es m = countAll (es.map Entry.pair) m := by
  induction es generalizing m with
  | nil => rfl
  | cons e es ih =>
    have he := h e (by simp)
    have hi := ih fun x hx => h x (by simp [hx])
    simp only [gatherUnresolved,if_pos he,List.map_cons,countAll,Entry.pair,hi]

def processed [Resolver] {σ : Type} (processor : Option (Frames → σ → Frames × σ)) :
    List (Entry (UnresolvedFrames F)) → σ → List (Frames × Int)
  | [], _ => []
  | entry :: entries, s =>
    match processor with
    | some f => ((f (Frames.from entry.item) s).1,entry.count) ::
        processed processor entries (f (Frames.from entry.item) s).2
    | none => (Frames.from entry.item,entry.count) :: processed processor entries s

theorem gather_eq [Resolver] {σ : Type} (processor : Option (Frames → σ → Frames × σ))
    {es : List (Entry (UnresolvedFrames F))} (h : ∀ e ∈ es, 0 < e.count) (s : σ)
    (m : AssocMap Frames Int) :
    gather processor es s m = countAll (processed processor es s) m := by
  induction es generalizing s m with
  | nil => rfl
  | cons e es ih =>
    have he := h e (by simp)
    have hi := ih fun x hx => h x (by simp [hx])
    cases processor with
    | none => simp only [gather,if_pos he,processed,countAll,hi]
    | some f => simp only [gather,if_pos he,processed,countAll,hi]

theorem processed_counts [Resolver] {σ : Type} (processor : Option (Frames → σ → Frames × σ))
    (es : List (Entry (UnresolvedFrames F))) (s : σ) :
    (processed processor es s).map Prod.snd = es.map Entry.count := by
  induction es generalizing s with
  | nil => rfl
  | cons e es ih => cases processor <;> simp [processed,ih]

theorem processed_pos [Resolver] {σ : Type} (processor : Option (Frames → σ → Frames × σ))
    {es : List (Entry (UnresolvedFrames F))} (h : ∀ e ∈ es, 0 < e.count) (s : σ) :
    ∀ a ∈ processed processor es s, 0 < a.2 := by
  intro a ha
  have hmem : a.2 ∈ es.map Entry.count := by
    rw [← processed_counts processor es s]
    exact List.mem_map_of_mem ha
  obtain ⟨e,he,hea⟩ := List.mem_map.mp hmem
  rw [← hea]
  exact h e he

theorem processed_none [Resolver] {σ : Type} (es : List (Entry (UnresolvedFrames F))) (s : σ) :
    processed none es s = (es.map Entry.pair).map fun e => (Frames.from e.1,e.2) := by
  induction es with
  | nil => rfl
  | cons e es ih => simp [processed,ih,Entry.pair]

omit [Frame F] in
theorem counts_nonneg {es : List (Entry (UnresolvedFrames F))} (h : ∀ e ∈ es, 0 < e.count) :
    ∀ n ∈ es.map Entry.count, 0 ≤ n := by
  intro n hn
  obtain ⟨e,he,rfl⟩ := List.mem_map.mp hn
  exact Int.le_of_lt (h e he)

end Entries

theorem sum_counts {α : Type} (l : List (α × ℤ)) : (l.map Prod.snd).sum = weigh (fun _ => 1) l := by
  simp [weigh]

section Building
variable {F : Type} [Layout (Entry (UnresolvedFrames F))] [Target] [Frame F] [DefaultHasher]
variable {p : Profiler F} {hist : List (UnresolvedFrames F × ℤ)}

theorem report_entries (h : p.data.Records hist) (hpos : ∀ a ∈ hist, 0 < a.2) :
    ∃ it, p.data.try_iter none = .ok it ∧
      Balances sameSlot hist ((collect it).map Entry.pair) ∧ (∀ e ∈ collect it, 0 < e.count) ∧
      ((collect it).map Entry.count).sum = (hist.map Prod.snd).sum := by
  obtain ⟨it,hit,hbal⟩ := h.try_iter
  refine ⟨it,hit,hbal,?_,?_⟩
  · intro e he
    exact hbal.pos sameSlot_refl hpos e.pair (List.mem_map_of_mem he)
  · have hw : weigh (fun _ => 1) ((collect it).map Entry.pair) = weigh (fun _ => 1) hist :=
      hbal.weigh_eq fun _ _ _ _ _ => rfl
    rw [← sum_counts,← sum_counts,List.map_map] at hw
    exact hw

theorem build_unresolved_ok {σ : Type} {b : ReportBuilder F σ} (hb : b.profiler = .ok p)
    (h : p.data.Records hist) (hpos : ∀ a ∈ hist, 0 < a.2)
    (hsum : (hist.map Prod.snd).sum < 2^63) :
    ∃ r es, b.build_unresolved none = .ok (.ok r) ∧ Balances sameSlot hist es ∧
      Tallies es r.data := by
  obtain ⟨it,hit,hbal,hes,hs⟩ := report_entries h hpos
  have hmap : ((collect it).map Entry.pair).map Prod.snd = (collect it).map Entry.count := by
    rw [List.map_map]
    rfl
  have hle := counts_nonneg hes
  rw [← hs,← hmap] at hsum
  rw [← hmap] at hle
  obtain ⟨m,hm,ht⟩ := countAll_empty hle hsum
  refine ⟨⟨m,b.timing⟩,(collect it).map Entry.pair,?_,hbal,ht⟩
  simp only [ReportBuilder.build_unresolved,hb,hit,gatherUnresolved_eq hes,hm]
  rfl

theorem build_ok [Resolver] {σ : Type} {b : ReportBuilder F σ} (hb : b.profiler = .ok p)
    (h : p.data.Records hist) (hpos : ∀ a ∈ hist, 0 < a.2)
    (hsum : (hist.map Prod.snd).sum < 2^63) (s : σ) :
    ∃ r it, b.build s none = .ok (.ok r) ∧ p.data.try_iter none = .ok it ∧
      Balances sameSlot hist ((collect it).map Entry.pair) ∧
      Tallies (processed b.frames_post_processor (collect it) s) r.data ∧
      (∀ e ∈ collect it, 0 < e.count) ∧
      ((collect it).map Entry.count).sum = (hist.map Prod.snd).sum := by
  obtain ⟨it,hit,hbal,hes,hs⟩ := report_entries h hpos
  have hmap := processed_counts b.frames_post_processor (collect it) s
  have hle := counts_nonneg hes
  rw [← hs,← hmap] at hsum
  rw [← hmap] at hle
  obtain ⟨m,hm,ht⟩ := countAll_empty hle hsum
  refine ⟨⟨m,b.timing⟩,it,?_,hit,hbal,ht,hes,hs⟩
  simp only [ReportBuilder.build,hb,hit,gather_eq b.frames_post_processor hes,hm]
  rfl

end Building

end Pprof
