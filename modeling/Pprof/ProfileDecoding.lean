import Pprof.ProfileTables
set_option autoImplicit false

/-! Reading a profile back: the references of its messages all resolve, and following them
gives the stacks of the report again. -/

namespace Pprof
open Assoc Interning Protos

namespace Protos

def Profile.stringIndices (p : Profile) : List Nat :=
  (p.sample_type ++ p.period_type.toList).flatMap (fun t => [t.ty,t.unit]) ++
    p.function.flatMap (fun f => [f.name,f.system_name,f.filename]) ++
    p.sample.flatMap fun s => s.label.flatMap fun l => [l.key,l.str]

structure Profile.WellFormed (p : Profile) : Prop where
  empty_first : p.string_table[0]? = some ""
  strings : ∀ i ∈ p.stringIndices, i < p.string_table.length
  function_ids : p.function.map Function.id = List.range' 1 p.function.length
  location_ids : p.location.map Location.id = List.range' 1 p.function.length
  lines : ∀ loc ∈ p.location, loc.line.map Line.function_id = [loc.id]
  locations : ∀ s ∈ p.sample, ∀ id ∈ s.location_id, ∃ loc ∈ p.location, loc.id = id
  names : (p.function.map Function.name).Nodup

def Profile.find_location (p : Profile) (id : Nat) : Option Location :=
  p.location.find? fun loc => loc.id == id

def Profile.find_function (p : Profile) (id : Nat) : Option Function :=
  p.function.find? fun f => f.id == id

def Profile.names (p : Profile) (id : Nat) : Option (List String) := do
  let loc ← p.find_location id
  loc.line.mapM fun line => do
    let f ← p.find_function line.function_id
    p.string_table[f.name]?

def Profile.labels (p : Profile) (s : Sample) : Option (List (String × String)) :=
  s.label.mapM fun l => do
    let key ← p.string_table[l.key]?
    let str ← p.string_table[l.str]?
    pure (key,str)

/-- A sample as its consumers see it: the names from the leaf on, the first value and the labels. -/
def Profile.decode (p : Profile) (s : Sample) :
    Option (List String × Option Int × List (String × String)) := do
  let names ← s.location_id.mapM p.names
  let labels ← p.labels s
  pure (names.flatten,s.value.head?,labels)

def Profile.details (p : Profile) (id : Nat) : Option (List (Int × String × String)) := do
  let loc ← p.find_location id
  loc.line.mapM fun line => do
    let f ← p.find_function line.function_id
    let system_name ← p.string_table[f.system_name]?
    let filename ← p.string_table[f.filename]?
    pure (line.line,system_name,filename)

end Protos

theorem find_numbered {α : Type} {id : α → Nat} {l : List α}
    (h : ∀ (i : Nat) (x : α), l[i]? = some x → id x = i+1) {i : Nat} {x : α}
    (hx : l[i]? = some x) : l.find? (fun y => id y == i+1) = some x := by
  obtain ⟨hi,hxi⟩ := List.getElem?_eq_some_iff.mp hx
  refine List.find?_eq_some_iff_getElem.mpr ⟨by simp [h i x hx],i,hi,hxi,fun j hj => ?_⟩
  have hid := h j l[j] (List.getElem?_eq_getElem _)
  simp only [hid,Bool.not_eq_true',beq_eq_false_iff_ne]
  omega

theorem map_range' {α : Type} {id : α → Nat} {l : List α}
    (h : ∀ (i : Nat) (x : α), l[i]? = some x → id x = i+1) : l.map id = List.range' 1 l.length := by
  apply List.ext_getElem
  · simp
  · intro i h₁ h₂
    simp only [List.length_map] at h₁
    have hid := h i l[i] (List.getElem?_eq_getElem h₁)
    simp [hid]
    omega

section Decoding
variable [Resolver] {r : Report}

theorem function_numbered (o : Iterated r) (i : Nat) (f : Function)
    (h : (profileOf o).function[i]? = some f) : f.id = i+1 := by
  simp only [profileOf,List.getElem?_mapIdx,Option.map_eq_some_iff] at h
  obtain ⟨symbol,-,rfl⟩ := h
  rfl

theorem location_numbered (o : Iterated r) (i : Nat) (loc : Location)
    (h : (profileOf o).location[i]? = some loc) : loc.id = i+1 := by
  simp only [profileOf,List.getElem?_mapIdx,Option.map_eq_some_iff] at h
  obtain ⟨symbol,-,rfl⟩ := h
  rfl

theorem locationId_first (o : Iterated r) {symbol : Symbol} (h : symbol ∈ occurrences o.iter) :
    ∃ i first, locationId o.firsts symbol = i+1 ∧ o.firsts[i]? = some first ∧
      first.get_name = symbol.get_name ∧ first ∈ occurrences o.iter := by
  obtain ⟨i,hi⟩ : ∃ i, position Symbol.get_name o.firsts (symbol.get_name) = some i :=
    internAll_position h
  have hid : locationId o.firsts symbol = i+1 := by
    unfold locationId
    rw [hi]
    rfl
  obtain ⟨first,hfirst,hname⟩ := position_get hi
  refine ⟨i,first,hid,hfirst,hname,?_⟩
  rcases internAll_mem (List.mem_of_getElem? hfirst) with hnil | hin
  · cases hnil
  · exact hin

theorem find_location_of (o : Iterated r) {i : Nat} {first : Symbol}
    (h : o.firsts[i]? = some first) :
    (profileOf o).find_location (i+1) = some (locationOf i first) ∧
      (profileOf o).find_function (i+1) =
        some (functionOf (indexed (str_tbl o)) i first) :=
  ⟨find_numbered (location_numbered o) (by simp [profileOf,h]),
    find_numbered (function_numbered o) (by simp [profileOf,h])⟩

theorem occurrence_known (o : Iterated r) {symbol : Symbol} (h : symbol ∈ occurrences o.iter) :
    SymbolKnown (indexed (str_tbl o)) symbol := by
  obtain ⟨e,he,hs⟩ := List.mem_flatMap.mp h
  exact (stacks_known o he).2 symbol hs

omit [Resolver] in
def Symbol.details (s : Symbol) : Int × String × String :=
  (s.get_lineno.toNat,s.sys_name,s.get_filename)

theorem location_leads (o : Iterated r) {symbol : Symbol} (h : symbol ∈ occurrences o.iter) :
    ∃ first ∈ occurrences o.iter, first.get_name = symbol.get_name ∧
      (profileOf o).names (locationId o.firsts symbol) = some [symbol.get_name] ∧
      (profileOf o).details (locationId o.firsts symbol) =
        some [first.details] := by
  obtain ⟨i,first,hid,hfirst,hname,hin⟩ := locationId_first o h
  obtain ⟨hloc,hfn⟩ := find_location_of o hfirst
  obtain ⟨hn,hs,hf⟩ := occurrence_known o hin
  have hn := strings_get o hn
  have hs := strings_get o hs
  have hf := strings_get o hf
  refine ⟨first,hin,hname,?_,?_⟩
  · rw [← hname,hid]
    simp only [Profile.names,hloc,locationOf,List.mapM_cons,List.mapM_nil,hfn,functionOf,
      Option.bind_eq_bind,Option.bind_some,Option.pure_def]
    simp [profileOf,hn]
  · rw [hid]
    simp only [Profile.details,hloc,locationOf,List.mapM_cons,List.mapM_nil,hfn,functionOf,
      Option.bind_eq_bind,Option.bind_some,Option.pure_def]
    simp [profileOf,hs,hf,Symbol.details]

omit [Resolver] in
theorem mapM_map_some {α β γ : Type} {f : β → Option γ} {k : α → β} {g : α → γ} {l : List α}
    (h : ∀ x ∈ l, f (k x) = some (g x)) : (l.map k).mapM f = some (l.map g) := by
  induction l with
  | nil => rfl
  | cons x l ih =>
    have hx := h x (by simp)
    have hl := ih fun y hy => h y (by simp [hy])
    simp [List.mapM_cons,hx,hl]

theorem decode_sample (o : Iterated r) {e : Frames × Int} (he : e ∈ o.iter) :
    (profileOf o).decode (protoSample (indexed (str_tbl o)) r.timing o.firsts e) =
      some (e.1.symbols.map Symbol.get_name,some e.2,[(THREAD,e.1.thread_name_or_id)]) := by
  have hnames : (e.1.symbols.map (locationId o.firsts)).mapM (profileOf o).names =
      some (e.1.symbols.map fun symbol => [symbol.get_name]) := by
    apply mapM_map_some
    intro symbol hs
    obtain ⟨-,-,-,hn,-⟩ := location_leads o (List.mem_flatMap.mpr ⟨e,he,hs⟩)
    exact hn
  have hthread := strings_get o (constant_known o (s := THREAD) (by simp))
  have hname := strings_get o (stacks_known o he).1
  have hflat : (e.1.symbols.map fun symbol => [symbol.get_name]).flatten =
      e.1.symbols.map Symbol.get_name := by
    rw [← List.flatMap_def,List.map_eq_flatMap]
  have hlabels : (profileOf o).labels
      (protoSample (indexed (str_tbl o)) r.timing o.firsts e) =
        some [(THREAD,e.1.thread_name_or_id)] := by
    simp only [Profile.labels,protoSample,List.mapM_cons,List.mapM_nil]
    simp [profileOf,hthread,hname]
  simp only [Profile.decode,hlabels]
  simp only [protoSample,hnames]
  simp [hflat]

theorem index_lt (o : Iterated r) {s : String} (h : Known (indexed (str_tbl o)) s) :
    indexOf (indexed (str_tbl o)) s < (str_tbl o).length := by
  obtain ⟨hlt,-⟩ := List.getElem?_eq_some_iff.mp (strings_get o h)
  exact hlt

theorem first_known (o : Iterated r) {symbol : Symbol} (h : symbol ∈ o.firsts) :
    SymbolKnown (indexed (str_tbl o)) symbol := by
  rcases internAll_mem h with hnil | hin
  · cases hnil
  · exact occurrence_known o hin

theorem strings_in_range (o : Iterated r) :
    ∀ i ∈ (profileOf o).stringIndices, i < (profileOf o).string_table.length := by
  have hconst : ∀ s ∈ [SAMPLES,COUNT,CPU,NANOSECONDS,THREAD],
      indexOf (indexed (str_tbl o)) s < (str_tbl o).length := fun s hs =>
    index_lt o (constant_known o hs)
  intro i hi
  simp only [Profile.stringIndices,List.mem_append] at hi
  rcases hi with (hi | hi) | hi
  · have hi' : i ∈ [SAMPLES,COUNT,CPU,NANOSECONDS,CPU,NANOSECONDS].map
        (indexOf (indexed (str_tbl o))) := hi
    obtain ⟨s,hs,rfl⟩ := List.mem_map.mp hi'
    exact hconst s (by simp at hs ⊢; tauto)
  · obtain ⟨f,hf,hi⟩ := List.mem_flatMap.mp hi
    obtain ⟨j,hj,rfl⟩ := List.mem_mapIdx.mp hf
    obtain ⟨hn,hs,hfile⟩ := first_known o (List.getElem_mem hj)
    simp only [functionOf,List.mem_cons,List.not_mem_nil,or_false] at hi
    rcases hi with rfl | rfl | rfl
    · exact index_lt o hn
    · exact index_lt o hs
    · exact index_lt o hfile
  · obtain ⟨s,hs,hi⟩ := List.mem_flatMap.mp hi
    obtain ⟨e,he,rfl⟩ := List.mem_map.mp hs
    simp only [protoSample,List.flatMap_singleton,List.mem_cons,List.not_mem_nil,or_false] at hi
    rcases hi with rfl | rfl
    · exact hconst THREAD (by simp)
    · exact index_lt o (stacks_known o he).1

theorem names_nodup (o : Iterated r) : ((profileOf o).function.map Function.name).Nodup := by
  have hmap : (profileOf o).function.map Function.name =
      (o.firsts.map Symbol.get_name).map (indexOf (indexed (str_tbl o))) := by
    apply List.ext_getElem
    · simp [profileOf]
    · intro i h₁ h₂
      simp [profileOf,functionOf]
  have hnodup : (o.firsts.map Symbol.get_name).Nodup := internAll_nodup (by simp) _
  rw [hmap]
  refine List.Nodup.map_on ?_ hnodup
  intro a ha b hb hab
  obtain ⟨x,hx,rfl⟩ := List.mem_map.mp ha
  obtain ⟨y,hy,rfl⟩ := List.mem_map.mp hb
  have hxa := strings_get o (first_known o hx).1
  have hyb := strings_get o (first_known o hy).1
  rw [hab,hyb] at hxa
  exact (Option.some.inj hxa).symm

theorem profileOf_wellFormed (o : Iterated r) : (profileOf o).WellFormed where
  empty_first := rfl
  strings := strings_in_range o
  function_ids := map_range' (function_numbered o)
  location_ids := by
    rw [map_range' (location_numbered o)]
    simp [profileOf]
  lines loc h := by
    obtain ⟨i,hi,rfl⟩ := List.mem_mapIdx.mp h
    rfl
  locations s hs id hid := by
    obtain ⟨e,he,rfl⟩ := List.mem_map.mp hs
    obtain ⟨symbol,hin,rfl⟩ := List.mem_map.mp hid
    obtain ⟨i,first,hid,hfirst,-⟩ := locationId_first o (List.mem_flatMap.mpr ⟨e,he,hin⟩)
    obtain ⟨hloc,-⟩ := find_location_of o hfirst
    rw [hid]
    exact ⟨_,List.mem_of_find?_eq_some hloc,rfl⟩
  names := names_nodup o

/-- Whatever the orders of iteration, the profile is well formed and shows each key of the
report as one sample. -/
theorem pprof_decodes (h : Representable r) (o : Iterated r) :
    ∃ p, r.pprof o = .ok p ∧ p.WellFormed ∧
      (p.sample.map p.decode).Perm (r.data.entries.map fun e =>
        some (e.1.symbols.map Symbol.get_name,some e.2,[(THREAD,e.1.thread_name_or_id)])) := by
  refine ⟨profileOf o,pprof_eq h o,profileOf_wellFormed o,?_⟩
  have hsample : (profileOf o).sample.map (profileOf o).decode = o.iter.map fun e =>
      some (e.1.symbols.map Symbol.get_name,some e.2,[(THREAD,e.1.thread_name_or_id)]) := by
    change (o.iter.map (protoSample (indexed (str_tbl o)) r.timing o.firsts)).map
      (profileOf o).decode = _
    rw [List.map_map]
    exact List.map_congr_left fun e he => decode_sample o he
  rw [hsample]
  exact o.iter_perm.map _

def KeepsDetails (o : Iterated r) (p : Profile) : Prop :=
  p.sample.map (fun s => s.location_id.map p.details) =
    o.iter.map fun e => e.1.symbols.map fun symbol => some [symbol.details]

def NamesDetermine (r : Report) : Prop :=
  ∀ a ∈ occurrences r.data.entries, ∀ b ∈ occurrences r.data.entries,
    a.get_name = b.get_name → a.details = b.details

theorem mem_occurrences (o : Iterated r) {symbol : Symbol} :
    symbol ∈ occurrences o.iter ↔ symbol ∈ occurrences r.data.entries := by
  simp only [occurrences,List.mem_flatMap,o.iter_perm.mem_iff]

theorem keepsDetails_iff (o : Iterated r) :
    KeepsDetails o (profileOf o) ↔ ∀ symbol ∈ occurrences o.iter,
      (profileOf o).details (locationId o.firsts symbol) = some [symbol.details] := by
  have hsample : (profileOf o).sample.map (fun s => s.location_id.map (profileOf o).details) =
      o.iter.map fun e => e.1.symbols.map fun symbol =>
        (profileOf o).details (locationId o.firsts symbol) := by
    simp [profileOf,protoSample,Function.comp_def]
  rw [KeepsDetails,hsample]
  simp only [List.map_inj_left,occurrences,List.mem_flatMap]
  constructor
  · rintro h symbol ⟨e,he,hs⟩
    exact h e he symbol hs
  · intro h e he symbol hs
    exact h symbol ⟨e,he,hs⟩

theorem details_kept_iff (o : Iterated r) :
    KeepsDetails o (profileOf o) ↔ NamesDetermine r := by
  rw [keepsDetails_iff]
  constructor
  · intro h a ha b hb hab
    have hid : locationId o.firsts a = locationId o.firsts b := by simp only [locationId,hab]
    have hda := h a ((mem_occurrences o).mpr ha)
    rw [hid,h b ((mem_occurrences o).mpr hb)] at hda
    exact (List.cons.inj (Option.some.inj hda)).1.symm
  · intro h symbol hs
    obtain ⟨first,hin,hname,-,hdetails⟩ := location_leads o hs
    rw [hdetails,h first ((mem_occurrences o).mp hin) symbol ((mem_occurrences o).mp hs) hname]

/-- Whatever the orders of iteration, there is a profile that keeps the lines, the system
names and the files just if there is one at all and the demangled names determine them. -/
theorem pprof_keeps_details_iff (o : Iterated r) :
    (∃ p, r.pprof o = .ok p ∧ KeepsDetails o p) ↔ Representable r ∧ NamesDetermine r := by
  constructor
  · rintro ⟨p,hp,hkeeps⟩
    have h := representable_of_ok hp
    rw [pprof_eq h o] at hp
    cases hp
    exact ⟨h,(details_kept_iff o).mp hkeeps⟩
  · rintro ⟨h,hnames⟩
    exact ⟨profileOf o,pprof_eq h o,(details_kept_iff o).mpr hnames⟩

end Decoding

def Iterated.inOrder [Resolver] (r : Report) : Iterated r :=
  ⟨r.data.entries.map Prod.fst,r.data.entries,dedup_str _,.refl _,.refl _,.refl _⟩

def recursiveStack : Frames where
  frames := [[⟨some [102],none,some 9,none⟩],[⟨some [102],none,some 7,none⟩]]
  thread_name := "main"
  thread_id := 1
  sample_timestamp := ⟨0,0⟩

def recursiveReport : Report :=
  ⟨⟨[(recursiveStack,3)],List.pairwise_singleton ..⟩,⟨99,⟨0,0⟩,0⟩⟩

theorem recursiveReport_representable : Representable recursiveReport where
  frequency := by decide
  nanos e he := by
    rw [List.mem_singleton.mp he]
    decide

theorem pprof_decodes_recursive :
    letI := plainResolver
    ∃ p, recursiveReport.pprof (.inOrder recursiveReport) = .ok p ∧ p.WellFormed ∧
      (p.sample.map p.decode).Perm
        [some (recursiveStack.symbols.map Symbol.get_name,some 3,[("thread","main")])] := by
  let _ := plainResolver
  exact pprof_decodes recursiveReport_representable (.inOrder recursiveReport)

/-- The profile shows the caller in the line of the leaf. -/
theorem recursive_line_lost :
    letI := plainResolver
    ∃ p, recursiveReport.pprof (.inOrder recursiveReport) = .ok p ∧
      ¬ KeepsDetails (.inOrder recursiveReport) p := by
  let _ := plainResolver
  refine ⟨_,pprof_eq recursiveReport_representable _,fun hkeeps => ?_⟩
  have hnames := (details_kept_iff _).mp hkeeps
  have hdetails := hnames ⟨some [102],none,some 9,none⟩ (by simp [occurrences,recursiveReport,
    recursiveStack,Frames.symbols]) ⟨some [102],none,some 7,none⟩ (by simp [occurrences,
    recursiveReport,recursiveStack,Frames.symbols]) rfl
  have hline : (9 : Int) = 7 := congrArg Prod.fst hdetails
  omega

end Pprof
