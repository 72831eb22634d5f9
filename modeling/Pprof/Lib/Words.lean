import Mathlib.Data.List.Chain
set_option autoImplicit false

/-! Text cut into words at its blanks, and the words joined again with one separator between
any two. -/

namespace Pprof.Words

variable {α : Type*}

/-- `part` is what is open of the current word. -/
def words (blank : α → Bool) (part : List α) : List α → List (List α)
  | [] => if part = [] then [] else [part]
  | c :: cs =>
    if blank c then
      if part = [] then words blank [] cs else part :: words blank [] cs
    else words blank (part ++ [c]) cs

def IsWord (blank : α → Bool) (w : List α) : Prop := w ≠ [] ∧ ∀ c ∈ w, blank c = false

/-- Every blank is the separator and no two blanks are next to each other. -/
def SingleSpaced (blank : α → Bool) (sep : α) (cs : List α) : Prop :=
  (∀ c ∈ cs, blank c = true → c = sep) ∧
    cs.IsChain fun a b => ¬ (blank a = true ∧ blank b = true)

def Trimmed (blank : α → Bool) (cs : List α) : Prop :=
  (∀ c ∈ cs.head?, blank c = false) ∧ ∀ c ∈ cs.getLast?, blank c = false

variable {blank : α → Bool}

theorem words_word {w : List α} (h : ∀ c ∈ w, blank c = false) (part cs : List α) :
    words blank part (w ++ cs) = words blank (part ++ w) cs := by
  induction w generalizing part with
  | nil => rw [List.append_nil,List.nil_append]
  | cons c w ih =>
    obtain ⟨hc,hw⟩ := List.forall_mem_cons.mp h
    rw [List.cons_append,words,if_neg (by simp [hc]),ih hw,List.append_assoc]
    rfl

theorem words_cons {w : List α} (h : IsWord blank w) {sep : α} (hsep : blank sep = true)
    (cs : List α) : words blank [] (w ++ sep :: cs) = w :: words blank [] cs := by
  rw [words_word h.2,List.nil_append,words,if_pos hsep,if_neg h.1]

theorem isWord_of_mem (part cs : List α) (hpart : ∀ c ∈ part, blank c = false) :
    ∀ w ∈ words blank part cs, IsWord blank w := by
  induction cs generalizing part with
  | nil =>
    intro w hw
    rw [words] at hw
    split at hw
    · cases hw
    · rename_i hne
      cases List.mem_singleton.mp hw
      exact ⟨hne,hpart⟩
  | cons c cs ih =>
    rw [words]
    by_cases hc : blank c = true
    · rw [if_pos hc]
      by_cases hne : part = []
      · rw [if_pos hne]
        exact ih [] nofun
      · rw [if_neg hne]
        exact List.forall_mem_cons.mpr ⟨⟨hne,hpart⟩,ih [] nofun⟩
    · rw [if_neg hc]
      have hfalse : blank c = false := Bool.eq_false_iff.mpr hc
      refine ih _ fun d hd => ?_
      rcases List.mem_append.mp hd with hd | hd
      · exact hpart d hd
      · rw [List.mem_singleton.mp hd,hfalse]

theorem intercalate_cons (sep : α) (w : List α) {ws : List (List α)} (h : ws ≠ []) :
    [sep].intercalate (w :: ws) = w ++ sep :: [sep].intercalate ws := by
  cases ws with
  | nil => exact absurd rfl h
  | cons v ws => simp [List.intercalate]

theorem singleSpaced_word {sep : α} {w : List α} (h : ∀ c ∈ w, blank c = false) :
    SingleSpaced blank sep w := by
  refine ⟨fun c hc hb => ?_,?_⟩
  · rw [h c hc] at hb
    cases hb
  · refine (List.pairwise_of_forall_mem_list ?_).isChain
    rintro a ha b - ⟨hb,-⟩
    rw [h a ha] at hb
    cases hb

theorem head_intercalate {sep : α} {ws : List (List α)} (h : ∀ w ∈ ws, IsWord blank w) :
    ∀ c ∈ ([sep].intercalate ws).head?, blank c = false := by
  intro c hc
  cases ws with
  | nil => cases hc
  | cons w ws =>
    obtain ⟨⟨hne,hw⟩,-⟩ := List.forall_mem_cons.mp h
    have hhead : ([sep].intercalate (w :: ws)).head? = w.head? := by
      cases ws with
      | nil => simp [List.intercalate]
      | cons v ws => rw [intercalate_cons sep w (by simp),List.head?_append_of_ne_nil _ hne]
    rw [hhead] at hc
    exact hw c (List.mem_of_mem_head? hc)

theorem singleSpaced_intercalate {sep : α} {ws : List (List α)}
    (h : ∀ w ∈ ws, IsWord blank w) : SingleSpaced blank sep ([sep].intercalate ws) := by
  induction ws with
  | nil => exact singleSpaced_word nofun
  | cons w ws ih =>
    obtain ⟨hw,hws⟩ := List.forall_mem_cons.mp h
    have hword : SingleSpaced blank sep w := singleSpaced_word hw.2
    by_cases hne : ws = []
    · subst hne
      simpa [List.intercalate] using hword
    · obtain ⟨honly,hchain⟩ := ih hws
      rw [intercalate_cons sep w hne]
      constructor
      · intro c hc hb
        rcases List.mem_append.mp hc with hc | hc
        · exact hword.1 c hc hb
        · rcases List.mem_cons.mp hc with rfl | hc
          · rfl
          · exact honly c hc hb
      · refine List.isChain_append.mpr ⟨hword.2,List.isChain_cons.mpr ⟨?_,hchain⟩,?_⟩
        · rintro c hc ⟨-,hb⟩
          rw [head_intercalate hws c hc] at hb
          cases hb
        · rintro c hc d - ⟨hb,-⟩
          rw [hw.2 c (List.mem_of_mem_getLast? hc)] at hb
          cases hb

/-- The induction is on the text. What is open is in front of it and is not empty when a blank
comes next. -/
theorem intercalate_words {sep : α} {part cs : List α} (h : SingleSpaced blank sep cs)
    (hlast : ∀ c ∈ cs.getLast?, blank c = false)
    (hhead : part = [] → ∀ c ∈ cs.head?, blank c = false) :
    [sep].intercalate (words blank part cs) = part ++ cs := by
  induction cs generalizing part with
  | nil =>
    rw [words]
    split
    · simp_all [List.intercalate]
    · simp [List.intercalate]
  | cons c cs ih =>
    obtain ⟨honly,hchain⟩ := h
    obtain ⟨hsep,honly⟩ := List.forall_mem_cons.mp honly
    obtain ⟨hnext,hchain⟩ := List.isChain_cons.mp hchain
    have hlast' : ∀ d ∈ cs.getLast?, blank d = false := by
      intro d hd
      refine hlast d ?_
      rw [List.getLast?_cons]
      rw [Option.mem_def] at hd
      rw [hd]
      rfl
    rw [words]
    by_cases hc : blank c = true
    · have hne : part ≠ [] := by
        intro hnil
        have hfalse := hhead hnil c rfl
        rw [hc] at hfalse
        cases hfalse
      have hcs : cs ≠ [] := by
        rintro rfl
        have hfalse := hlast c rfl
        rw [hc] at hfalse
        cases hfalse
      have hrest : [sep].intercalate (words blank [] cs) = cs :=
        @ih [] ⟨honly,hchain⟩ hlast' fun _ d hd =>
          Bool.eq_false_iff.mpr fun hd' => hnext d hd ⟨hc,hd'⟩
      have hwords : words blank [] cs ≠ [] := by
        intro hnil
        rw [hnil] at hrest
        exact hcs hrest.symm
      rw [if_pos hc,if_neg hne,intercalate_cons sep part hwords,hrest,hsep hc]
    · rw [if_neg hc,ih ⟨honly,hchain⟩ hlast' (by simp)]
      simp

/-- The words of a text join to the text just if it is single spaced. -/
theorem intercalate_words_iff {sep : α} {cs : List α} (h : Trimmed blank cs) :
    [sep].intercalate (words blank [] cs) = cs ↔ SingleSpaced blank sep cs := by
  constructor
  · intro heq
    rw [← heq]
    exact singleSpaced_intercalate (isWord_of_mem [] cs nofun)
  · exact fun hs => intercalate_words hs h.2 fun _ => h.1

end Pprof.Words
