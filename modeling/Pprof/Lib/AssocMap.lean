import Pprof.Lib.DistinctKeys
import Pprof.Lib.FormalSum
set_option autoImplicit false

/-! A hash map as the list of its live entries, in the order in which they were
inserted. Keys are compared by `==`. -/

namespace Pprof.Assoc
open DistinctKeys FormalSum

structure AssocMap (K V : Type*) [BEq K] where
  entries : List (K × V)
  distinct : Distinct Prod.fst entries

variable {K V : Type*} [BEq K]

def AssocMap.empty : AssocMap K V := ⟨[],List.Pairwise.nil⟩

def AssocMap.get (m : AssocMap K V) (k : K) : Option V :=
  (m.entries.find? fun e => e.1 == k).map Prod.snd

theorem get_eq_none {m : AssocMap K V} {k : K} :
    m.get k = none ↔ ∀ e ∈ m.entries, (e.1 == k) = false := by
  simp [AssocMap.get,List.find?_eq_none]

theorem get_eq_some_mem {m : AssocMap K V} {k : K} {v : V} (h : m.get k = some v) :
    ∃ e ∈ m.entries, (e.1 == k) = true ∧ e.2 = v := by
  obtain ⟨e,he,hv⟩ := Option.map_eq_some_iff.mp h
  exact ⟨e,List.mem_of_find?_eq_some he,by simpa using List.find?_some he,hv⟩

/-- Write through the reference that a lookup of `k` returned. -/
def AssocMap.set (m : AssocMap K V) (k : K) (v : V) : AssocMap K V where
  entries := m.entries.map fun e => if e.1 == k then (e.1,v) else e
  distinct := m.distinct.map _ fun e => by split <;> rfl

/-- Insert and give back the value that was there; a key that is there stays. -/
def AssocMap.insert (m : AssocMap K V) (k : K) (v : V) : Option V × AssocMap K V :=
  match h : m.get k with
  | some old => (some old,m.set k v)
  | none => (none,⟨m.entries ++ [(k,v)],m.distinct.concat (get_eq_none.mp h)⟩)

theorem insert_of_get_none {m : AssocMap K V} {k : K} {v : V} (h : m.get k = none) :
    ∃ m', m.insert k v = (none,m') ∧ m'.entries = m.entries ++ [(k,v)] := by
  unfold AssocMap.insert
  split
  · rename_i old heq
    rw [h] at heq
    cases heq
  · exact ⟨_,rfl,rfl⟩

theorem total_of_get_none {m : AssocMap K ℤ} {k : K} (h : m.get k = none) :
    total (· == k) m.entries = 0 := total_eq_zero (get_eq_none.mp h)

section Equal
variable [EquivBEq K]

theorem set_entries {m : AssocMap K V} {k : K} {v : V} (h : m.get k = some v) :
    ∃ l₁ k' l₂, (k' == k) = true ∧ m.entries = l₁ ++ (k',v) :: l₂ ∧
      ∀ v', (m.set k v').entries = l₁ ++ (k',v') :: l₂ := by
  obtain ⟨e,he,hk,rfl⟩ := get_eq_some_mem h
  obtain ⟨l₁,l₂,hl,hg⟩ := m.distinct.modify he hk
  exact ⟨l₁,e.1,l₂,hk,hl,fun v' => hg fun x => (x.1,v')⟩

theorem total_of_get_some {m : AssocMap K ℤ} {k : K} {v : ℤ} (h : m.get k = some v) :
    total (· == k) m.entries = v := by
  obtain ⟨e,he,hk,rfl⟩ := get_eq_some_mem h
  obtain ⟨l₁,l₂,hl,h₁,h₂⟩ := m.distinct.split he hk
  rw [hl,total_append,total_cons,total_eq_zero h₁,total_eq_zero h₂]
  simp [hk]

theorem get_insert (m : AssocMap K V) (k k' : K) (v : V) :
    (m.insert k v).2.get k' = if k == k' then some v else m.get k' := by
  cases hg : m.get k with
  | none =>
    obtain ⟨m',hi,he⟩ := insert_of_get_none (v := v) hg
    rw [hi]
    simp only [AssocMap.get,he,List.find?_append,List.find?_cons,List.find?_nil]
    by_cases hk : k == k'
    · have hnone : m.entries.find? (fun e => e.1 == k') = none := by
        rw [List.find?_eq_none]
        intro e hm hek
        have hf := get_eq_none.mp hg e hm
        rw [PartialEquivBEq.trans hek (BEq.symm hk)] at hf
        cases hf
      simp [hk,hnone]
    · simp [hk]
  | some old =>
    have hi : (m.insert k v).2 = m.set k v := by
      unfold AssocMap.insert
      split
      · rfl
      · rename_i heq
        rw [hg] at heq
        cases heq
    have hfst : ∀ e : K × V, ((fun e : K × V => e.1 == k') ∘
        fun e => if e.1 == k then (e.1,v) else e) e = (e.1 == k') := by
      intro e
      simp only [Function.comp]
      split <;> rfl
    rw [hi]
    simp only [AssocMap.get,AssocMap.set,List.find?_map,funext hfst,Option.map_map]
    by_cases hk : k == k'
    · have hsame : (fun e : K × V => e.1 == k') = fun e => e.1 == k := by
        funext e
        exact BEq.congr_right (BEq.symm hk)
      obtain ⟨e,he,-⟩ := Option.map_eq_some_iff.mp hg
      have hek : (e.1 == k) = true := by simpa using List.find?_some he
      simp [hk,hsame,he,hek]
    · rw [if_neg hk]
      cases he : m.entries.find? fun e => e.1 == k' with
      | none => rfl
      | some e =>
        have hek := List.find?_some he
        have hne : ¬ (e.1 == k) = true := fun hc => hk (PartialEquivBEq.trans (BEq.symm hc) hek)
        simp [hne]

end Equal

def indexed (l : List K) : AssocMap K Nat :=
  l.zipIdx.foldl (fun m e => (m.insert e.1 e.2).2) AssocMap.empty

theorem indexed_snoc (l : List K) (k : K) :
    indexed (l ++ [k]) = ((indexed l).insert k l.length).2 := by
  simp [indexed,List.zipIdx_append]

variable [LawfulBEq K]

theorem indexed_get {l : List K} {k : K} {i : Nat} (h : (indexed l).get k = some i) :
    l[i]? = some k := by
  induction l using List.reverseRecOn with
  | nil => cases h
  | append_singleton l x ih =>
    rw [indexed_snoc,get_insert] at h
    by_cases hx : x = k
    · subst hx
      simp only [BEq.rfl,if_true,Option.some.injEq] at h
      subst h
      simp
    · rw [if_neg (by simpa using hx)] at h
      have hi := ih h
      obtain ⟨hlt,-⟩ := List.getElem?_eq_some_iff.mp hi
      rw [List.getElem?_append_left hlt,hi]

theorem indexed_of_mem {l : List K} {k : K} (h : k ∈ l) : ∃ i, (indexed l).get k = some i := by
  induction l using List.reverseRecOn with
  | nil => cases h
  | append_singleton l x ih =>
    rw [indexed_snoc,get_insert]
    by_cases hx : x = k
    · exact ⟨l.length,by simp [hx]⟩
    · rw [if_neg (by simpa using hx)]
      rcases List.mem_append.mp h with h | h
      · exact ih h
      · exact absurd (List.mem_singleton.mp h).symm hx

end Pprof.Assoc
