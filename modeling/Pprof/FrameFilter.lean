import Pprof.Frames
import Pprof.Lib.Skipping
set_option autoImplicit false

/-! Which frames of a captured stack `Frames::from` keeps. The perf map may be loaded anew while
the stack is converted. -/

namespace Pprof
open Skipping Utf8

variable {F : Type} [Frame F] [Resolver]

/-- The symbols of frame number `i`; `perfmaps i` is the perf map that is loaded by then. -/
def symbolsAt (perfmaps : Nat → UInt64 → Option Symbol) (i : Nat) (frame : F) : List Symbol :=
  match perfmaps i (ip frame) with
  | some perfmap_symbol => [perfmap_symbol]
  | none => resolve_symbol frame

def resolveFramesAt (perfmaps : Nat → UInt64 → Option Symbol) : Nat → List F → List (List Symbol)
  | _, [] => []
  | i, frame :: rest =>
    if isHandler (symbolsAt perfmaps i frame) then
      match rest with
      | [] => []
      | _ :: rest => resolveFramesAt perfmaps (i+2) rest
    else if (symbolsAt perfmaps i frame).isEmpty then resolveFramesAt perfmaps (i+1) rest
    else symbolsAt perfmaps i frame :: resolveFramesAt perfmaps (i+1) rest

def Frames.fromAt (perfmaps : Nat → UInt64 → Option Symbol) (u : UnresolvedFrames F) : Frames where
  frames := resolveFramesAt perfmaps 0 u.frames
  thread_name := from_utf8_lossy (u.thread_name.toList.take u.thread_name_length)
  thread_id := u.thread_id
  sample_timestamp := u.sample_timestamp

theorem resolveFramesAt_eq (i : Nat) (frames : List F) :
    resolveFramesAt (fun _ => resolve_in_perfmap) i frames = resolveFrames frames := by
  have hsymbols : ∀ (i : Nat) (frame : F),
      symbolsAt (fun _ => resolve_in_perfmap) i frame = symbolsOf frame := fun _ _ => rfl
  fun_induction resolveFramesAt (fun _ => resolve_in_perfmap) i frames with
  | case1 => rfl
  | case2 i frame hh => simp [resolveFrames,← hsymbols i,hh]
  | case3 i frame hh x rest ih => simp [resolveFrames,← hsymbols i,hh,ih]
  | case4 i frame rest hh he ih =>
    rw [resolveFrames.eq_def]
    simp [← hsymbols i,hh,he,ih]
  | case5 i frame rest hh he ih =>
    rw [resolveFrames.eq_def]
    simp [← hsymbols i,hh,he,ih]

theorem fromAt_eq (u : UnresolvedFrames F) :
    Frames.fromAt (fun _ => resolve_in_perfmap) u = Frames.from u := by
  rw [Frames.fromAt,Frames.from,resolveFramesAt_eq]

def resolutions (perfmaps : Nat → UInt64 → Option Symbol) (i : Nat) (frames : List F) :
    List (List Symbol) := frames.mapIdx fun k => symbolsAt perfmaps (i+k)

omit [Resolver] in
theorem resolutions_cons (perfmaps : Nat → UInt64 → Option Symbol) (i : Nat) (frame : F)
    (frames : List F) : resolutions perfmaps i (frame :: frames) =
      symbolsAt perfmaps i frame :: resolutions perfmaps (i+1) frames := by
  have hshift : (fun k => symbolsAt (F := F) perfmaps (i+(k+1))) =
      fun k => symbolsAt perfmaps (i+1+k) := by
    funext k
    rw [Nat.add_right_comm,Nat.add_assoc]
  rw [resolutions,List.mapIdx_cons,hshift]
  rfl

theorem resolveFramesAt_met (perfmaps : Nat → UInt64 → Option Symbol) (i : Nat)
    (frames : List F) : resolveFramesAt perfmaps i frames =
      (met isHandler (resolutions perfmaps i frames)).filter fun symbols => !symbols.isEmpty := by
  fun_induction resolveFramesAt perfmaps i frames with
  | case1 => rfl
  | case2 i frame hh => simp [resolutions,met,hh]
  | case3 i frame hh x rest ih => simp [resolutions_cons,met,hh,ih]
  | case4 i frame rest hh he ih =>
    rw [resolutions_cons,met_pass hh,List.filter_cons_of_neg (by simpa using he),ih]
  | case5 i frame rest hh he ih =>
    rw [resolutions_cons,met_pass hh,List.filter_cons_of_pos (by simpa using he),ih]

/-- The frames that are kept: of those that the loop meets, the ones that are not the handler's
and have symbols. -/
structure KeptFrames (resolved : List (List Symbol)) (kept : List Nat) : Prop where
  ascend : kept.Pairwise (· < ·)
  mem : ∀ i, i ∈ kept ↔ Reached isHandler resolved 0 i ∧
    ∃ symbols, resolved[i]? = some symbols ∧ isHandler symbols = false ∧ symbols ≠ []

omit [Frame F] in
theorem met_kept (resolved : List (List Symbol)) :
    ∃ kept, KeptFrames resolved kept ∧
      ((met isHandler resolved).filter fun symbols => !symbols.isEmpty) =
        kept.filterMap (resolved[·]?) := by
  let found : Nat → Bool := fun i => resolved[i]?.any fun symbols => !symbols.isEmpty
  have hmem : ∀ i, i ∈ positions isHandler 0 resolved ↔ Reached isHandler resolved 0 i ∧
      ∃ symbols, resolved[i]? = some symbols ∧ isHandler symbols = false :=
    mem_positions 0 resolved resolved rfl
  refine ⟨(positions isHandler 0 resolved).filter found,⟨?_,fun i => ?_⟩,?_⟩
  · exact (positions_ascend 0 resolved).filter _
  · rw [List.mem_filter,hmem i]
    constructor
    · rintro ⟨⟨hr,symbols,hs,hm⟩,hf⟩
      refine ⟨hr,symbols,hs,hm,?_⟩
      simpa [found,hs] using hf
    · rintro ⟨hr,symbols,hs,hm,hne⟩
      exact ⟨⟨hr,symbols,hs,hm⟩,by simpa [found,hs] using hne⟩
  · rw [met_positions 0 resolved resolved rfl,List.filter_filterMap,List.filterMap_filter]
    refine List.filterMap_congr fun i _ => ?_
    cases hs : resolved[i]? with
    | none => simp [found,hs]
    | some symbols => cases symbols <;> simp [found,hs,Option.filter]

/-- The loop keeps, each once and in order, the frames with symbols that it reaches, and a frame
of the handler that it reaches puts the next one out of reach. So no frame of the handler is
kept, and without one only the frames without symbols are lost. -/
theorem frames_filtered (perfmaps : Nat → UInt64 → Option Symbol) (u : UnresolvedFrames F) :
    (∃ kept, KeptFrames (resolutions perfmaps 0 u.frames) kept ∧
        (Frames.fromAt perfmaps u).frames =
          kept.filterMap ((resolutions perfmaps 0 u.frames)[·]?)) ∧
      (∀ i symbols, Reached isHandler (resolutions perfmaps 0 u.frames) 0 i →
        (resolutions perfmaps 0 u.frames)[i]? = some symbols → isHandler symbols = true →
          ¬ Reached isHandler (resolutions perfmaps 0 u.frames) 0 (i+1)) ∧
      (∀ symbols ∈ (Frames.fromAt perfmaps u).frames, isHandler symbols = false) ∧
      ((∀ symbols ∈ resolutions perfmaps 0 u.frames, isHandler symbols = false) →
        (Frames.fromAt perfmaps u).frames =
          (resolutions perfmaps 0 u.frames).filter fun symbols => !symbols.isEmpty) ∧
      (Frames.fromAt perfmaps u).thread_id = u.thread_id ∧
      (Frames.fromAt perfmaps u).sample_timestamp = u.sample_timestamp ∧
      ∀ (frames : List F) (tn : List UInt8) (thread_id : UInt64) (sample_timestamp : SystemTime),
        UnresolvedFrames.new frames tn thread_id sample_timestamp = .ok u →
          (Frames.fromAt perfmaps u).thread_name = from_utf8_lossy tn := by
  have hframes : (Frames.fromAt perfmaps u).frames =
      (met isHandler (resolutions perfmaps 0 u.frames)).filter fun symbols => !symbols.isEmpty :=
    resolveFramesAt_met perfmaps 0 u.frames
  refine ⟨?_,fun i symbols hr hs hm => hr.skips hs hm,?_,?_,rfl,rfl,?_⟩
  · rw [hframes]
    exact met_kept _
  · intro symbols hs
    rw [hframes] at hs
    exact met_unmarked _ symbols (List.mem_filter.mp hs).1
  · intro hnone
    rw [hframes,met_of_unmarked hnone]
  · intro frames tn thread_id sample_timestamp hnew
    unfold UnresolvedFrames.new at hnew
    by_cases hfits : tn.length ≤ MAX_THREAD_NAME
    · rw [dif_pos hfits] at hnew
      cases hnew
      simp [Frames.fromAt,UnresolvedFrames.named]
    · rw [dif_neg hfits] at hnew
      cases hnew

end Pprof
