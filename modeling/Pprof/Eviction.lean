import Pprof.HashCounter
import Pprof.Lib.Runs
set_option autoImplicit false

/-! The hash counter over any sequence of calls: a key has one live entry, in the bucket of its
hash, until that entry is evicted to make room. -/

namespace Pprof
open DistinctKeys Iteration Runs

section Calls
variable {T : Type} [BEq T] [Hashable T]

structure Arranged (c : HashCounter T) : Prop where
  distinct : ∀ i, Distinct Entry.item (c.buckets.get i).live
  placed : ∀ i, ∀ e ∈ (c.buckets.get i).live, bucketOf e.item = i

theorem arranged_default [Inhabited T] : Arranged (default : HashCounter T) := by
  constructor
  · intro i
    rw [live_default]
    exact .nil
  · intro i e he
    rw [live_default] at he
    cases he

theorem Arranged.add [EquivBEq T] {c c' : HashCounter T} (h : Arranged c) {key : T} {count : Int}
    {evict : Option (Entry T)} (ha : c.add key count = .ok (c',evict)) : Arranged c' := by
  obtain ⟨hadd,hother,-⟩ := HashCounter.add_ok ha
  have hd := hadd.distinct (h.distinct _)
  have hp := hadd.placed fun e he => h.placed _ e he
  constructor <;> intro j <;> by_cases hj : j = bucketOf key
  · rw [hj]
    exact hd
  · rw [hother j hj]
    exact h.distinct j
  · rw [hj]
    exact hp
  · rw [hother j hj]
    exact h.placed j

theorem bucketOf_congr [LawfulHashable T] {a b : T} (h : (a == b) = true) :
    bucketOf a = bucketOf b := by
  have hh := LawfulHashable.hash_eq a b h
  simp [bucketOf,hh]

/-- Equal keys of different buckets would have different hashes. -/
theorem Arranged.distinct_live [LawfulHashable T] {c : HashCounter T} (h : Arranged c) :
    Distinct Entry.item c.live := by
  unfold Distinct HashCounter.live
  rw [List.pairwise_flatMap]
  constructor
  · intro b hb
    obtain ⟨i,hi,rfl⟩ := List.mem_iff_getElem.mp hb
    have hd := h.distinct ⟨i,by simpa using hi⟩
    simpa [Vector.get,Distinct] using hd
  · rw [List.pairwise_iff_getElem]
    intro i j hi hj hij x hx y hy
    have hxi := h.placed ⟨i,by simpa using hi⟩ x (by simpa [Vector.get] using hx)
    have hyj := h.placed ⟨j,by simpa using hj⟩ y (by simpa [Vector.get] using hy)
    rw [← Bool.not_eq_true]
    intro hxy
    have hb := bucketOf_congr hxy
    rw [hxi,hyj] at hb
    exact Nat.ne_of_lt hij (congrArg Fin.val hb)

theorem Arranged.mem_bucket [LawfulHashable T] {c : HashCounter T} (h : Arranged c) {key : T}
    {e : Entry T} (he : e ∈ c.live) (hk : (e.item == key) = true) :
    e ∈ (c.buckets.get (bucketOf key)).live := by
  obtain ⟨i,hi⟩ := mem_live_bucket he
  rw [← bucketOf_congr hk,h.placed i e hi]
  exact hi

omit [BEq T] [Hashable T] in
theorem bucket_mem {c : HashCounter T} {i : Fin BUCKETS} {e : Entry T}
    (he : e ∈ (c.buckets.get i).live) : e ∈ c.live :=
  List.mem_flatMap.mpr ⟨c.buckets.get i,by simp [Vector.get],he⟩

/-- What one `add` does to the live entries `l` of the bucket of its key, by whether the counter
has the key and whether the bucket has room. -/
inductive Kept (c : HashCounter T) (key : T) (count : Int) (l : List (Entry T)) :
    List (Entry T) → Option (Entry T) → Prop where
  | counted (l₁ : List (Entry T)) (e : Entry T) (l₂ : List (Entry T)) :
      (e.item == key) = true → l = l₁ ++ e :: l₂ → (∀ x ∈ l₁ ++ l₂, (x.item == key) = false) →
      Kept c key count l (l₁ ++ ⟨e.item,e.count+count⟩ :: l₂) none
  | appended : (∀ e ∈ c.live, (e.item == key) = false) → l.length < BUCKETS_ASSOCIATIVITY →
      Kept c key count l (l ++ [⟨key,count⟩]) none
  | replaced (l₁ : List (Entry T)) (old : Entry T) (l₂ : List (Entry T)) :
      (∀ e ∈ c.live, (e.item == key) = false) → l.length = BUCKETS_ASSOCIATIVITY →
      l = l₁ ++ old :: l₂ → (∀ e ∈ l, old.count ≤ e.count) →
      Kept c key count l (l₁ ++ ⟨key,count⟩ :: l₂) (some old)

theorem Arranged.kept [EquivBEq T] [LawfulHashable T] {c : HashCounter T} (h : Arranged c)
    {key : T} {count : Int} {l' : List (Entry T)} {evict : Option (Entry T)}
    (ha : Added key count (c.buckets.get (bucketOf key)).live l' evict) :
    Kept c key count (c.buckets.get (bucketOf key)).live l' evict := by
  have habsent : (∀ e ∈ (c.buckets.get (bucketOf key)).live, (e.item == key) = false) →
      ∀ e ∈ c.live, (e.item == key) = false := by
    intro hne e he
    rw [← Bool.not_eq_true]
    intro hk
    have hf := hne e (h.mem_bucket he hk)
    rw [hk] at hf
    cases hf
  cases ha with
  | hit e he hk =>
    obtain ⟨l₁,l₂,hl,h₁,h₂⟩ := (h.distinct _).split he hk
    have hbump : (l₁ ++ e :: l₂).map (bump key count) = l₁ ++ ⟨e.item,e.count+count⟩ :: l₂ :=
      map_under hk h₁ h₂ fun x => ⟨x.item,x.count+count⟩
    rw [hl,hbump,← hl]
    refine .counted l₁ e l₂ hk hl fun x hx => ?_
    rcases List.mem_append.mp hx with hx | hx
    · exact h₁ x hx
    · exact h₂ x hx
  | append hne hlt => exact .appended (habsent hne) hlt
  | evict i old hne hlen hi hmin =>
    obtain ⟨l₁,l₂,hl,hs⟩ := set_split hi ⟨key,count⟩
    rw [hs]
    exact .replaced l₁ old l₂ (habsent hne) hlen hl hmin

def HashCounter.step (c : HashCounter T) (call : T × Int) : Option (HashCounter T) :=
  match c.add call.1 call.2 with
  | .ok (c,_) => some c
  | .error _ => none

theorem arranged_run [EquivBEq T] [Inhabited T] {c : HashCounter T} {calls : List (T × Int)}
    (h : run HashCounter.step default calls = some c) : Arranged c := by
  refine Reachable.invariant (I := Arranged) ?_ arranged_default ⟨calls,h⟩
  intro c call c' hc hs
  cases ha : c.add call.1 call.2 with
  | error err => simp [HashCounter.step,ha] at hs
  | ok r =>
    obtain ⟨c₁,evict⟩ := r
    simp only [HashCounter.step,ha,Option.some.injEq] at hs
    obtain rfl := hs
    exact hc.add ha

/-- The counter after any calls: its shape, what its iterator yields, and what the next call
does. A call panics only where the count of its key would leave the range of `isize`. -/
theorem counter_represents [EquivBEq T] [LawfulHashable T] [Inhabited T] {c : HashCounter T}
    {calls : List (T × Int)} (h : run HashCounter.step default calls = some c) :
    (∀ i, (c.buckets.get i).length ≤ BUCKETS_ASSOCIATIVITY) ∧
      (∀ i, ∀ e ∈ (c.buckets.get i).live, bucketOf e.item = i) ∧
      Distinct Entry.item c.live ∧ collect c.iter = c.live ∧
      ∀ key count, (c.add key count = .error .overflow ∧
          ∃ e ∈ c.live, (e.item == key) = true ∧ ¬ InIsize (e.count+count)) ∨
        ∃ c' evict, c.add key count = .ok (c',evict) ∧
          Kept c key count (c.buckets.get (bucketOf key)).live
            (c'.buckets.get (bucketOf key)).live evict ∧
          ∀ j, j ≠ bucketOf key → c'.buckets.get j = c.buckets.get j := by
  have hc := arranged_run h
  refine ⟨fun i => (c.buckets.get i).length_le,hc.placed,hc.distinct_live,collect_iter c,?_⟩
  intro key count
  cases ha : c.add key count with
  | error err =>
    left
    obtain ⟨rfl,e,he,hk,hover⟩ := HashCounter.add_panics ha
    exact ⟨rfl,e,bucket_mem he,hk,hover⟩
  | ok r =>
    right
    obtain ⟨c',evict⟩ := r
    obtain ⟨hadd,hother,-⟩ := HashCounter.add_ok ha
    exact ⟨c',evict,rfl,hc.kept hadd,hother⟩

end Calls

/-- Five keys of one bucket, of which the last evicts the one with the least count. -/
def crowded : List (Nat × Int) := [(0,2),(4096,1),(8192,3),(12288,2),(16384,1)]

theorem counter_represents_crowded : ∃ c : HashCounter Nat,
    run HashCounter.step default crowded = some c ∧ Distinct Entry.item c.live ∧
      collect c.iter = c.live := by
  obtain ⟨c,h⟩ : ∃ c : HashCounter Nat, run HashCounter.step default crowded = some c := ⟨_,rfl⟩
  obtain ⟨-,-,hd,hi,-⟩ := counter_represents h
  exact ⟨c,h,hd,hi⟩

/-- A key whose count is full already: one more is none of the three, but a panic. -/
theorem full_count_overflows : ∃ c : HashCounter Nat,
    run HashCounter.step default [(7,2^63-1)] = some c ∧
      (∃ e ∈ c.live, (e.item == 7) = true ∧ e.count = 2^63-1) ∧
      c.add 7 1 = .error .overflow ∧ ∀ c' evict, c.add 7 1 ≠ .ok (c',evict) := by
  obtain ⟨c,h,hlive,hadd⟩ : ∃ c : HashCounter Nat,
      run HashCounter.step default [(7,2^63-1)] = some c ∧
        (c.buckets.get (bucketOf 7)).live = [⟨7,2^63-1⟩] ∧ c.add 7 1 = .error .overflow :=
    ⟨_,rfl,rfl,rfl⟩
  have hmem : ⟨7,2^63-1⟩ ∈ (c.buckets.get (bucketOf 7)).live := by simp [hlive]
  exact ⟨c,h,⟨_,bucket_mem hmem,rfl,rfl⟩,hadd,by simp [hadd]⟩

end Pprof
