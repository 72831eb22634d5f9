import Pprof.Lib.DistinctKeys
import Pprof.Lib.Iter
import Pprof.Machine
set_option autoImplicit false

/-! `HashCounter` of `collector.rs`: a table of `BUCKETS` buckets, each an array
of `BUCKETS_ASSOCIATIVITY` slots of which the first `length` are live. -/

namespace Pprof
open DistinctKeys Iteration

def BUCKETS : Nat := 1 <<< 12
def BUCKETS_ASSOCIATIVITY : Nat := 4

theorem BUCKETS_pos : 0 < BUCKETS := by decide
theorem BUCKETS_ASSOCIATIVITY_pos : 0 < BUCKETS_ASSOCIATIVITY := by decide

structure Entry (T : Type) where
  item : T
  count : Int
  deriving DecidableEq, Repr

variable {T : Type}

instance [Inhabited T] : Inhabited (Entry T) := ⟨⟨default,0⟩⟩

structure Bucket (T : Type) where
  length : Nat
  entries : Vector (Entry T) BUCKETS_ASSOCIATIVITY
  length_le : length ≤ BUCKETS_ASSOCIATIVITY

instance [Inhabited T] : Inhabited (Bucket T) :=
  ⟨⟨0,Vector.replicate BUCKETS_ASSOCIATIVITY default,Nat.zero_le _⟩⟩

/-- `entries[0..length]`; what lies behind is a default or a stale entry. -/
def Bucket.live (b : Bucket T) : List (Entry T) := b.entries.toList.take b.length

def Bucket.min_index (b : Bucket T) : Fin BUCKETS_ASSOCIATIVITY :=
  (((List.finRange BUCKETS_ASSOCIATIVITY).take b.length).foldl
    (fun min index =>
      if (b.entries.get index).count < min.2 then (index,(b.entries.get index).count) else min)
    (⟨0,BUCKETS_ASSOCIATIVITY_pos⟩,(b.entries.get ⟨0,BUCKETS_ASSOCIATIVITY_pos⟩).count)).1

theorem mem_live {b : Bucket T} {e : Entry T} (h : e ∈ b.live) : ∃ i, b.entries.get i = e := by
  obtain ⟨i,hi,he⟩ := List.mem_iff_getElem.mp (List.mem_of_mem_take h)
  exact ⟨⟨i,by simpa using hi⟩,by simpa [Vector.get] using he⟩

theorem live_length (b : Bucket T) : b.live.length = b.length := by
  have hl := b.length_le
  simp [Bucket.live]
  omega

theorem live_get {b : Bucket T} (h : ¬ b.length < BUCKETS_ASSOCIATIVITY)
    (i : Fin BUCKETS_ASSOCIATIVITY) : b.live[i.val]? = some (b.entries.get i) := by
  have hi := i.isLt
  have hl : i.val < b.length := by omega
  simp [Bucket.live,hl,Vector.get]

/-- The loop keeps in `min` a slot and its count, which no slot visited so far undercuts. -/
theorem min_fold_le {n : Nat} (c : Fin n → Int) (l : List (Fin n)) (m : Fin n × Int)
    (hm : c m.1 = m.2) :
    let r := l.foldl (fun min i => if c i < min.2 then (i,c i) else min) m
    c r.1 = r.2 ∧ r.2 ≤ m.2 ∧ ∀ i ∈ l, r.2 ≤ c i := by
  induction l generalizing m with
  | nil => simp [hm]
  | cons i l ih =>
    by_cases hi : c i < m.2
    · obtain ⟨h₁,h₂,h₃⟩ := ih (i,c i) rfl
      simp only [List.foldl_cons,if_pos hi]
      refine ⟨h₁,by simp only at h₂; omega,?_⟩
      intro j hj
      rcases List.mem_cons.mp hj with rfl | hj
      · exact h₂
      · exact h₃ j hj
    · obtain ⟨h₁,h₂,h₃⟩ := ih m hm
      simp only [List.foldl_cons,if_neg hi]
      refine ⟨h₁,h₂,?_⟩
      intro j hj
      rcases List.mem_cons.mp hj with rfl | hj
      · omega
      · exact h₃ j hj

theorem min_index_le {b : Bucket T} (h : ¬ b.length < BUCKETS_ASSOCIATIVITY)
    {e : Entry T} (he : e ∈ b.live) : (b.entries.get b.min_index).count ≤ e.count := by
  obtain ⟨i,rfl⟩ := mem_live he
  have hf := min_fold_le (fun i => (b.entries.get i).count)
    ((List.finRange BUCKETS_ASSOCIATIVITY).take b.length)
    (⟨0,BUCKETS_ASSOCIATIVITY_pos⟩,(b.entries.get ⟨0,BUCKETS_ASSOCIATIVITY_pos⟩).count) rfl
  obtain ⟨h₁,-,h₃⟩ := hf
  have hi : i ∈ (List.finRange BUCKETS_ASSOCIATIVITY).take b.length := by
    rw [List.take_of_length_le (by simp; omega)]
    exact List.mem_finRange i
  exact Int.le_trans (Int.le_of_eq h₁) (h₃ i hi)

theorem live_append {b : Bucket T} (e : Entry T) (h : b.length < BUCKETS_ASSOCIATIVITY) :
    (⟨b.length+1,b.entries.set b.length e h,h⟩ : Bucket T).live = b.live ++ [e] := by
  have hl : b.length < b.entries.toList.length := by simpa using h
  simp only [Bucket.live,Vector.toList_set]
  rw [List.take_add_one,List.take_set_of_le (Nat.le_refl _)]
  simp [h]

theorem live_evict {b : Bucket T} (e : Entry T) (i : Fin BUCKETS_ASSOCIATIVITY) :
    (⟨b.length,b.entries.set i.val e i.isLt,b.length_le⟩ : Bucket T).live =
      b.live.set i.val e := by
  simp only [Bucket.live,Vector.toList_set]
  rw [List.take_set]

theorem set_split {l : List (Entry T)} {i : Nat} {old : Entry T} (h : l[i]? = some old)
    (e : Entry T) : ∃ l₁ l₂, l = l₁ ++ old :: l₂ ∧ l.set i e = l₁ ++ e :: l₂ := by
  obtain ⟨hi,rfl⟩ := List.getElem?_eq_some_iff.mp h
  refine ⟨l.take i,l.drop (i+1),?_,?_⟩
  · rw [← List.drop_eq_getElem_cons hi,List.take_append_drop]
  · rw [List.set_eq_take_append_cons_drop,if_pos hi]

structure BucketIterator (T : Type) where
  related_bucket : Bucket T
  index : Nat

theorem BucketIterator.index_lt {it : BucketIterator T} (h : it.index < it.related_bucket.length) :
    it.index < BUCKETS_ASSOCIATIVITY := by
  have hl := it.related_bucket.length_le
  omega

def Bucket.iter (b : Bucket T) : BucketIterator T := ⟨b,0⟩

def BucketIterator.next (it : BucketIterator T) : Option (Entry T × BucketIterator T) :=
  if h : it.index < it.related_bucket.length then
    some (it.related_bucket.entries.get ⟨it.index,index_lt h⟩,{ it with index := it.index+1 })
  else none

instance : Iter (BucketIterator T) (Entry T) where
  next := BucketIterator.next
  remaining it := it.related_bucket.length-it.index
  next_remaining it e it' h := by
    unfold BucketIterator.next at h
    split at h
    · cases h
      simp only
      omega
    · cases h

theorem collect_bucket (b : Bucket T) (i : Nat) :
    collect (⟨b,i⟩ : BucketIterator T) = b.live.drop i := by
  generalize hn : b.length-i = n
  induction n generalizing i with
  | zero =>
    have hx : Iter.next (⟨b,i⟩ : BucketIterator T) = none := dif_neg (by simp only; omega)
    rw [collect_none hx,List.drop_of_length_le (by rw [live_length]; omega)]
  | succ n ih =>
    have hi : i < b.length := by omega
    have hx : Iter.next (⟨b,i⟩ : BucketIterator T) = some (_,⟨b,i+1⟩) := dif_pos hi
    have hl : i < b.live.length := by rw [live_length]; exact hi
    rw [collect_some hx,ih (i+1) (by omega),List.drop_eq_getElem_cons hl]
    simp [Bucket.live,Vector.get]

structure HashCounter (T : Type) where
  buckets : Vector (Bucket T) BUCKETS

instance [Inhabited T] : Inhabited (HashCounter T) := ⟨⟨Vector.replicate BUCKETS default⟩⟩

/-- The `empty()` that the source chains to the first bucket only gives the box its type. -/
def HashCounter.iter (c : HashCounter T) : Boxed (BucketIterator T) :=
  c.buckets.toList.tail.foldl (fun iter bucket => .chain iter bucket.iter)
    (.one (c.buckets.get ⟨0,BUCKETS_pos⟩).iter)

def HashCounter.live (c : HashCounter T) : List (Entry T) := c.buckets.toList.flatMap Bucket.live

theorem collect_foldl_chain (bs : List (Bucket T)) (it : Boxed (BucketIterator T)) :
    collect (bs.foldl (fun iter bucket => .chain iter bucket.iter) it) =
      collect it ++ bs.flatMap Bucket.live := by
  induction bs generalizing it with
  | nil => simp
  | cons b bs ih =>
    rw [List.foldl_cons,ih,collect_boxed_chain,List.flatMap_cons,Bucket.iter,collect_bucket]
    simp

theorem collect_iter (c : HashCounter T) : collect c.iter = c.live := by
  have h₀ := BUCKETS_pos
  have hcons : c.buckets.toList = c.buckets.get ⟨0,h₀⟩ :: c.buckets.toList.tail := by
    cases hl : c.buckets.toList with
    | nil =>
      have hlen := congrArg List.length hl
      simp at hlen
      omega
    | cons b bs =>
      have hb : c.buckets.toList[0]? = some b := by rw [hl]; rfl
      simp [h₀] at hb
      simp [Vector.get,hb]
  rw [HashCounter.iter,collect_foldl_chain,collect_one,Bucket.iter,collect_bucket,List.drop_zero,
    HashCounter.live,hcons,List.flatMap_cons]
  rfl

theorem mem_live_bucket {c : HashCounter T} {e : Entry T} (h : e ∈ c.live) :
    ∃ i, e ∈ (c.buckets.get i).live := by
  obtain ⟨b,hb,he⟩ := List.mem_flatMap.mp h
  obtain ⟨i,hi,rfl⟩ := List.mem_iff_getElem.mp hb
  exact ⟨⟨i,by simpa using hi⟩,by simpa [Vector.get] using he⟩

theorem vector_get_set {α : Type} {n : Nat} (v : Vector α n) (i j : Fin n) (x : α) :
    (v.set i.val x i.isLt).get j = if i = j then x else v.get j := by
  change (v.set i.val x i.isLt)[j.val] = if i = j then x else v[j.val]
  simp [Vector.getElem_set,Fin.ext_iff]

theorem live_set (c : HashCounter T) (i : Fin BUCKETS) (b : Bucket T) :
    (c.buckets.set i.val b i.isLt).get i = b ∧
      (∀ j, j ≠ i → (c.buckets.set i.val b i.isLt).get j = c.buckets.get j) ∧
      ∃ l₁ l₂, c.live = l₁ ++ ((c.buckets.get i).live ++ l₂) ∧
        (⟨c.buckets.set i.val b i.isLt⟩ : HashCounter T).live = l₁ ++ (b.live ++ l₂) := by
  refine ⟨by simp [vector_get_set],?_,?_⟩
  · intro j hj
    rw [vector_get_set,if_neg fun hij => hj hij.symm]
  · have hlt : i.val < c.buckets.toList.length := by simp
    have hget : c.buckets.get i = c.buckets.toList[i.val] := by simp [Vector.get]
    refine ⟨(c.buckets.toList.take i.val).flatMap Bucket.live,
      (c.buckets.toList.drop (i.val+1)).flatMap Bucket.live,?_,?_⟩
    · rw [hget,← List.flatMap_cons,← List.drop_eq_getElem_cons hlt,← List.flatMap_append,
        List.take_append_drop]
      rfl
    · rw [HashCounter.live,Vector.toList_set,List.set_eq_take_append_cons_drop,if_pos hlt,
        List.flatMap_append,List.flatMap_cons]

theorem live_default [Inhabited T] (i : Fin BUCKETS) :
    ((default : HashCounter T).buckets.get i).live = [] := by
  change ((Vector.replicate BUCKETS (default : Bucket T))[i.val]).live = []
  rw [Vector.getElem_replicate]
  rfl

/-- `hash_value % BUCKETS`, where `Hashable` stands for `DefaultHasher`. -/
def bucketOf [Hashable T] (key : T) : Fin BUCKETS :=
  ⟨(hash key).toNat%BUCKETS,Nat.mod_lt _ BUCKETS_pos⟩

variable [BEq T]

def bump (key : T) (count : Int) (ele : Entry T) : Entry T :=
  if ele.item == key then { ele with count := ele.count+count } else ele

/-- The `for_each` over the live slots adds to every one that matches, and each
of these additions is checked. -/
def Bucket.add (b : Bucket T) (key : T) (count : Int) :
    Except Panic (Bucket T × Option (Entry T)) :=
  let done := b.live.any fun ele => ele.item == key
  if b.live.any fun ele => ele.item == key && !decide (InIsize (ele.count+count)) then
    .error .overflow
  else if done then
    .ok (⟨b.length,b.entries.mapIdx fun index ele =>
      if index < b.length then bump key count ele else ele,b.length_le⟩,none)
  else if h : b.length < BUCKETS_ASSOCIATIVITY then
    .ok (⟨b.length+1,b.entries.set b.length ⟨key,count⟩ h,h⟩,none)
  else
    .ok (⟨b.length,b.entries.set b.min_index.val ⟨key,count⟩ b.min_index.isLt,b.length_le⟩,
      some (b.entries.get b.min_index))

inductive Added (key : T) (count : Int) (l : List (Entry T)) :
    List (Entry T) → Option (Entry T) → Prop where
  | hit (e : Entry T) : e ∈ l → (e.item == key) = true →
      (∀ e ∈ l, (e.item == key) = true → InIsize (e.count+count)) →
      Added key count l (l.map (bump key count)) none
  | append : (∀ e ∈ l, (e.item == key) = false) → l.length < BUCKETS_ASSOCIATIVITY →
      Added key count l (l ++ [⟨key,count⟩]) none
  | evict (i : Nat) (old : Entry T) : (∀ e ∈ l, (e.item == key) = false) →
      l.length = BUCKETS_ASSOCIATIVITY → l[i]? = some old → (∀ e ∈ l, old.count ≤ e.count) →
      Added key count l (l.set i ⟨key,count⟩) (some old)

theorem live_bump (b : Bucket T) (key : T) (count : Int) :
    (⟨b.length,b.entries.mapIdx fun index ele =>
      if index < b.length then bump key count ele else ele,b.length_le⟩ : Bucket T).live =
      b.live.map (bump key count) := by
  apply List.ext_getElem
  · simp [Bucket.live]
  · intro i h₁ h₂
    have hi : i < b.length := by
      simp [Bucket.live] at h₁
      omega
    simp [Bucket.live,hi]

theorem Bucket.add_ok {b b' : Bucket T} {key : T} {count : Int} {evict : Option (Entry T)}
    (h : b.add key count = .ok (b',evict)) : Added key count b.live b'.live evict := by
  by_cases hov : b.live.any fun ele => ele.item == key && !decide (InIsize (ele.count+count))
  · simp [Bucket.add,hov] at h
  · by_cases hdone : b.live.any fun ele => ele.item == key
    · simp only [Bucket.add,if_neg hov,if_pos hdone] at h
      cases h
      obtain ⟨e,he,hk⟩ := List.any_eq_true.mp hdone
      rw [live_bump]
      refine .hit e he hk fun x hx hxk => ?_
      simp only [List.any_eq_true,not_exists,not_and] at hov
      simpa [hxk] using hov x hx
    · have hne : ∀ e ∈ b.live, (e.item == key) = false := by
        simpa [List.any_eq_true] using hdone
      by_cases hlt : b.length < BUCKETS_ASSOCIATIVITY
      · simp only [Bucket.add,if_neg hov,if_neg hdone,dif_pos hlt] at h
        cases h
        rw [live_append ⟨key,count⟩ hlt]
        exact .append hne (by rw [live_length]; exact hlt)
      · simp only [Bucket.add,if_neg hov,if_neg hdone,dif_neg hlt] at h
        cases h
        rw [live_evict]
        have hlen := b.length_le
        exact .evict b.min_index.val _ hne (by rw [live_length]; omega) (live_get hlt _)
          fun e he => min_index_le hlt he

theorem Bucket.add_total {b : Bucket T} {key : T} {count : Int}
    (h : ∀ e ∈ b.live, (e.item == key) = true → InIsize (e.count+count)) :
    ∃ r, b.add key count = .ok r := by
  have hov : ¬ b.live.any fun ele => ele.item == key && !decide (InIsize (ele.count+count)) := by
    simp only [List.any_eq_true,not_exists,not_and]
    intro e he
    simpa using h e he
  simp only [Bucket.add,if_neg hov]
  split
  · exact ⟨_,rfl⟩
  · split <;> exact ⟨_,rfl⟩

theorem Added.distinct [EquivBEq T] {key : T} {count : Int} {l l' : List (Entry T)}
    {evict : Option (Entry T)} (h : Added key count l l' evict)
    (hd : Distinct Entry.item l) : Distinct Entry.item l' := by
  cases h with
  | hit e he hk =>
    refine hd.map _ fun x => ?_
    unfold bump
    split <;> rfl
  | append hne => exact hd.concat hne
  | evict i old hne => exact hd.set i hne

theorem Added.of_miss {key : T} {count : Int} {l l' : List (Entry T)}
    {evict : Option (Entry T)} (h : Added key count l l' evict)
    (hne : ∀ e ∈ l, (e.item == key) = false) :
    (evict = none ∧ l.length < BUCKETS_ASSOCIATIVITY ∧ l' = l ++ [⟨key,count⟩]) ∨
      ∃ i old, evict = some old ∧ l.length = BUCKETS_ASSOCIATIVITY ∧ l' = l.set i ⟨key,count⟩ := by
  cases h with
  | hit e he hk =>
    rw [hne e he] at hk
    cases hk
  | append _ hlt => exact .inl ⟨rfl,hlt,rfl⟩
  | evict i old _ hlen => exact .inr ⟨i,old,rfl,hlen,rfl⟩

theorem Added.evicted {key : T} {count : Int} {l l' : List (Entry T)}
    {evict : Option (Entry T)} (h : Added key count l l' evict) : ∀ e ∈ evict.toList, e ∈ l := by
  intro e he
  cases h with
  | hit => cases he
  | append => cases he
  | evict i old hne hlen hi =>
    rw [List.mem_singleton.mp he]
    exact List.mem_of_getElem? hi

def HashCounter.add [Hashable T] (c : HashCounter T) (key : T) (count : Int) :
    Except Panic (HashCounter T × Option (Entry T)) := do
  let (bucket,evict) ← (c.buckets.get (bucketOf key)).add key count
  pure (⟨c.buckets.set (bucketOf key).val bucket (bucketOf key).isLt⟩,evict)

theorem HashCounter.add_ok [Hashable T] {c c' : HashCounter T} {key : T} {count : Int}
    {evict : Option (Entry T)} (h : c.add key count = .ok (c',evict)) :
    let i := bucketOf key
    Added key count (c.buckets.get i).live (c'.buckets.get i).live evict ∧
      (∀ j, j ≠ i → c'.buckets.get j = c.buckets.get j) ∧
      ∃ l₁ l₂, c.live = l₁ ++ ((c.buckets.get i).live ++ l₂) ∧
        c'.live = l₁ ++ ((c'.buckets.get i).live ++ l₂) := by
  obtain ⟨⟨bucket,ev⟩,hb,hp⟩ := bind_eq_ok.mp h
  obtain ⟨rfl,rfl⟩ := Prod.mk.inj (pure_eq_ok.mp hp)
  obtain ⟨hset,hother,hlive⟩ := live_set c (bucketOf key) bucket
  simp only [hset]
  exact ⟨Bucket.add_ok hb,hother,hlive⟩

theorem Added.placed [Hashable T] {key : T} {count : Int} {l l' : List (Entry T)}
    {evict : Option (Entry T)} (h : Added key count l l' evict)
    (hp : ∀ e ∈ l, bucketOf e.item = bucketOf key) :
    ∀ e ∈ l', bucketOf e.item = bucketOf key := by
  intro x hx
  cases h with
  | hit =>
    obtain ⟨e,he,rfl⟩ := List.mem_map.mp hx
    unfold bump
    split <;> exact hp e he
  | append =>
    rcases List.mem_append.mp hx with hx | hx
    · exact hp x hx
    · rw [List.mem_singleton.mp hx]
  | evict =>
    rcases List.mem_or_eq_of_mem_set hx with hx | rfl
    · exact hp x hx
    · rfl

theorem Bucket.add_panics {b : Bucket T} {key : T} {count : Int} {panic : Panic}
    (h : b.add key count = .error panic) :
    panic = .overflow ∧ ∃ e ∈ b.live, (e.item == key) = true ∧ ¬ InIsize (e.count+count) := by
  by_cases hov : b.live.any fun ele => ele.item == key && !decide (InIsize (ele.count+count))
  · simp only [Bucket.add,if_pos hov] at h
    cases h
    obtain ⟨e,he,hk⟩ := List.any_eq_true.mp hov
    simp only [Bool.and_eq_true,Bool.not_eq_true',decide_eq_false_iff_not] at hk
    exact ⟨rfl,e,he,hk⟩
  · have hin : ∀ e ∈ b.live, (e.item == key) = true → InIsize (e.count+count) := by
      simpa using hov
    obtain ⟨r,hr⟩ := Bucket.add_total hin
    rw [h] at hr
    cases hr

theorem HashCounter.add_panics [Hashable T] {c : HashCounter T} {key : T} {count : Int}
    {panic : Panic} (h : c.add key count = .error panic) :
    panic = .overflow ∧ ∃ e ∈ (c.buckets.get (bucketOf key)).live, (e.item == key) = true ∧
      ¬ InIsize (e.count+count) := by
  apply Bucket.add_panics
  cases hb : (c.buckets.get (bucketOf key)).add key count with
  | error err =>
    simp only [HashCounter.add,hb,bind,Except.bind] at h
    cases h
    rfl
  | ok r => simp [HashCounter.add,hb,bind,Except.bind,pure,Except.pure] at h

theorem HashCounter.add_total [Hashable T] {c : HashCounter T} {key : T} {count : Int}
    (h : ∀ e ∈ (c.buckets.get (bucketOf key)).live, (e.item == key) = true →
      InIsize (e.count+count)) : ∃ r, c.add key count = .ok r := by
  obtain ⟨r,hr⟩ := Bucket.add_total h
  exact ⟨_,bind_eq_ok.mpr ⟨r,hr,rfl⟩⟩

end Pprof
