import Pprof.Frames
import Pprof.Lib.Digits
set_option autoImplicit false

/-! `write_thread_name_fallback` of `profiler.rs`: the thread id in decimal, for threads whose
name cannot be had, and the C string that the handler takes it for. -/

namespace Pprof
open Digits

def countDigits (current_thread base len : Nat) : Nat × Nat :=
  if base < current_thread ∧ len < MAX_THREAD_NAME then
    countDigits current_thread (base*10) (len+1)
  else (base,len)
termination_by MAX_THREAD_NAME-len

/-- `try_into` a `c_char`; what does not fit is logged and becomes 0. -/
def c_char (n : Nat) : UInt8 := if n < 128 then UInt8.ofNat n else 0

def writeByte (name : List UInt8) (index : Nat) (byte : UInt8) : Except Panic (List UInt8) :=
  if index < name.length then .ok (name.set index byte) else .error .outOfBounds

def writeDigits (current_thread len base index : Nat) (name : List UInt8) :
    Except Panic (List UInt8) :=
  if index < len ∧ 1 < base then do
    let base := base/10
    let name ← writeByte name index (c_char (48+current_thread/base%10))
    writeDigits current_thread len base (index+1) name
  else pure name
termination_by len-index

def write_thread_name_fallback (current_thread : UInt64) (name : List UInt8) :
    Except Panic (List UInt8) :=
  let (base,len) := countDigits current_thread.toNat 1 0
  writeDigits current_thread.toNat len base 0 name

def zeroed : List UInt8 := List.replicate MAX_THREAD_NAME 0

/-- `CStr::from_ptr` at the start of a buffer, as long as it stays inside. -/
def from_ptr (name : List UInt8) : Option (List UInt8) :=
  if 0 ∈ name then some (name.takeWhile fun b => b != 0) else none

def fallback_name (current_thread : UInt64) : Option (List UInt8) :=
  (write_thread_name_fallback current_thread zeroed).toOption.bind from_ptr

def digitByte (c : Char) : UInt8 := UInt8.ofNat c.toNat

def decimal (current_thread : UInt64) : List UInt8 :=
  (Nat.toDigits 10 current_thread.toNat).map digitByte

theorem c_char_digit {d : Nat} (h : d < 10) : c_char (48+d) = digitByte d.digitChar := by
  rw [c_char,if_pos (by omega),digitByte,Nat.toNat_digitChar_of_lt_ten h]

theorem digitByte_ne {d : Nat} (h : d < 10) : digitByte d.digitChar ≠ 0 := by
  rw [digitByte,Nat.toNat_digitChar_of_lt_ten h]
  intro h0
  have hnat : (UInt8.ofNat (48+d)).toNat = 0 := congrArg UInt8.toNat h0
  rw [UInt8.toNat_ofNat_of_lt' (by simp only [UInt8.size]; omega)] at hnat
  omega

structure Counted (current_thread n : Nat) : Prop where
  fits : n ≤ MAX_THREAD_NAME
  below : ∀ j, j < n → 10^j < current_thread
  above : n < MAX_THREAD_NAME → current_thread ≤ 10^n

theorem Counted.lt_iff {current_thread n : Nat} (h : Counted current_thread n) :
    n < MAX_THREAD_NAME ↔ current_thread ≤ 10^(MAX_THREAD_NAME-1) := by
  constructor
  · intro hlt
    exact Nat.le_trans (h.above hlt) (Nat.pow_le_pow_right (by decide) (by omega))
  · intro hle
    by_contra hfull
    have hpos : 0 < MAX_THREAD_NAME := by decide
    have hbelow := h.below (MAX_THREAD_NAME-1) (by omega)
    omega

theorem countDigits_eq (current_thread : Nat) {base len : Nat} (hbase : base = 10^len)
    (hlen : len ≤ MAX_THREAD_NAME) (hlow : ∀ j, j < len → 10^j < current_thread) :
    ∃ n, countDigits current_thread base len = (10^n,n) ∧ Counted current_thread n := by
  induction base, len using countDigits.induct current_thread with
  | case1 base len hgo ih =>
    rw [countDigits,if_pos hgo]
    refine ih (by rw [hbase,pow_succ]) (by omega) fun j hj => ?_
    by_cases hlast : j = len
    · rw [hlast,← hbase]
      exact hgo.1
    · exact hlow j (by omega)
  | case2 base len hstop =>
    rw [countDigits,if_neg hstop]
    refine ⟨len,by rw [hbase],⟨hlen,hlow,fun hlt => ?_⟩⟩
    rw [← hbase]
    exact Nat.le_of_not_lt fun hlt' => hstop ⟨hlt',hlt⟩

/-- The loop invariant: what is before the index is done, what is after the digits is as it was. -/
theorem writeDigits_eq (current_thread : Nat) (k : Nat) (done todo rest : List UInt8)
    (h : todo.length = k) :
    writeDigits current_thread (done.length+k) (10^k) done.length (done ++ todo ++ rest) =
      .ok (done ++ (places 10 current_thread k).map (fun d => digitByte d.digitChar) ++ rest) := by
  induction k generalizing done todo with
  | zero =>
    obtain rfl := List.length_eq_zero_iff.mp h
    rw [writeDigits,if_neg (by omega)]
    rfl
  | succ k ih =>
    obtain ⟨b,todo,rfl⟩ := List.exists_cons_of_length_eq_add_one h
    have hgo : done.length < done.length+(k+1) ∧ 1 < 10^(k+1) :=
      ⟨by omega,Nat.one_lt_pow (Nat.succ_ne_zero k) (by decide)⟩
    have hbase : 10^(k+1)/10 = 10^k := by
      rw [pow_succ]
      exact Nat.mul_div_cancel _ (by decide)
    have hdigit : current_thread/10^k%10 < 10 := Nat.mod_lt _ (by decide)
    have hwrite : writeByte (done ++ b :: todo ++ rest) done.length
        (c_char (48+current_thread/10^k%10)) =
        .ok ((done ++ [digitByte (current_thread/10^k%10).digitChar]) ++ todo ++ rest) := by
      rw [writeByte,if_pos (by simp),c_char_digit hdigit]
      simp
    have hrest := ih (done ++ [digitByte (current_thread/10^k%10).digitChar]) todo
      (by simpa using h)
    have hlen : (done ++ [digitByte (current_thread/10^k%10).digitChar]).length+k =
        done.length+(k+1) := by
      rw [List.length_append,List.length_singleton]
      omega
    rw [hlen,List.length_append,List.length_singleton] at hrest
    rw [writeDigits,if_pos hgo]
    simp only [hbase,hwrite,bind,Except.bind]
    rw [hrest]
    simp [places]

theorem fallback_eq (current_thread : UInt64) :
    ∃ n, write_thread_name_fallback current_thread zeroed =
        .ok ((places 10 current_thread.toNat n).map (fun d => digitByte d.digitChar) ++
          List.replicate (MAX_THREAD_NAME-n) 0) ∧ Counted current_thread.toNat n := by
  obtain ⟨n,hn,hcounted⟩ := countDigits_eq current_thread.toNat (pow_zero 10).symm
    (Nat.zero_le _) nofun
  refine ⟨n,?_,hcounted⟩
  have hsplit : zeroed = [] ++ List.replicate n 0 ++ List.replicate (MAX_THREAD_NAME-n) 0 := by
    rw [List.nil_append,List.replicate_append_replicate,Nat.add_sub_cancel' hcounted.fits]
    rfl
  have hwrite := writeDigits_eq current_thread.toNat n [] (List.replicate n 0)
    (List.replicate (MAX_THREAD_NAME-n) 0) List.length_replicate
  rw [← hsplit,List.length_nil,Nat.zero_add,List.nil_append] at hwrite
  simp only [write_thread_name_fallback,hn]
  exact hwrite

theorem digits_ne (n k : Nat) : 0 ∉ (places 10 n k).map fun d => digitByte d.digitChar := by
  intro h
  obtain ⟨d,hd,h0⟩ := List.mem_map.mp h
  exact digitByte_ne (places_lt (by decide) n k d hd) h0

theorem from_ptr_padded {l : List UInt8} (h : 0 ∉ l) (k : Nat) :
    from_ptr (l ++ List.replicate k 0) = if k = 0 then none else some l := by
  cases k with
  | zero => simp [from_ptr,h]
  | succ k =>
    have hne : ∀ b ∈ l, (b != 0) = true := by
      intro b hb
      simp only [bne_iff_ne,ne_eq]
      rintro rfl
      exact h hb
    have hmem : (0 : UInt8) ∈ l ++ List.replicate (k+1) 0 := by simp
    rw [from_ptr,if_pos hmem,List.takeWhile_append_of_pos hne]
    simp [List.replicate_succ]

theorem fallback_name_eq (current_thread : UInt64) :
    ∃ n, fallback_name current_thread = (if n = MAX_THREAD_NAME then none
        else some ((places 10 current_thread.toNat n).map fun d => digitByte d.digitChar)) ∧
      Counted current_thread.toNat n := by
  obtain ⟨n,hn,hcounted⟩ := fallback_eq current_thread
  refine ⟨n,?_,hcounted⟩
  have hfits := hcounted.fits
  have hfull : MAX_THREAD_NAME-n = 0 ↔ n = MAX_THREAD_NAME := by omega
  rw [fallback_name,hn]
  simp only [Except.toOption,Option.bind_some,from_ptr_padded (digits_ne _ _),hfull]

theorem digitByte_injective {b n n' : Nat} (hb : 0 < b) (hb' : b ≤ 10)
    (h : (Nat.toDigits b n).map digitByte = (Nat.toDigits b n').map digitByte) :
    Nat.toDigits b n = Nat.toDigits b n' := by
  have hback : ∀ m, ((Nat.toDigits b m).map digitByte).map (fun x => Char.ofNat x.toNat) =
      Nat.toDigits b m := by
    intro m
    rw [List.map_map]
    refine (List.map_congr_left fun c hc => ?_).trans (List.map_id _)
    have hdigit := Nat.isDigit_of_mem_toDigits hb hb' hc
    simp only [Char.isDigit,Bool.and_eq_true,decide_eq_true_eq] at hdigit
    have hlt : c.toNat < UInt8.size := by
      have hle : c.toNat ≤ 57 := hdigit.2
      simp only [UInt8.size]
      omega
    simp only [Function.comp_apply,digitByte,UInt8.toNat_ofNat_of_lt' hlt,Char.ofNat_toNat,id_eq]
  rw [← hback n,h,hback n']

theorem decimal_injective {t t' : UInt64} (h : decimal t = decimal t') : t = t' := by
  have hdigits := digitByte_injective (by decide) (by decide) h
  have hnat := congrArg (fun cs => Nat.ofDigitChars 10 cs 0) hdigits
  simp only [Nat.ofDigitChars_ten_toDigits] at hnat
  exact UInt64.toNat_inj.mp hnat

theorem length_decimal_le {t : UInt64} {k : Nat} (hk : 0 < k) :
    (decimal t).length ≤ k ↔ t.toNat < 10^k := by
  rw [decimal,List.length_map]
  exact Nat.length_toDigits_le_iff (by decide) hk

theorem lt_length_decimal {t : UInt64} {k : Nat} (h : 10^k ≤ t.toNat) : k < (decimal t).length := by
  cases k with
  | zero => simp [decimal,Nat.length_toDigits_pos]
  | succ k =>
    by_contra hle
    have hlt := (length_decimal_le (Nat.succ_pos k)).mp (Nat.le_of_not_lt hle)
    omega

def Misprinted (t : UInt64) : Prop := t = 0 ∨ ∃ k, t.toNat = 10^k

theorem fallback_decimal {t : UInt64} (h : (decimal t).length ≤ MAX_THREAD_NAME-1) :
    fallback_name t = some (decimal t) ↔ ¬ Misprinted t := by
  obtain ⟨n,hn,hcounted⟩ := fallback_name_eq t
  have hsmall : t.toNat < 10^(MAX_THREAD_NAME-1) := (length_decimal_le (by decide)).mp h
  have hlt : n < MAX_THREAD_NAME := hcounted.lt_iff.mpr (Nat.le_of_lt hsmall)
  have hlow := hcounted.below
  have hpow := hcounted.above hlt
  rw [hn,if_neg (Nat.ne_of_lt hlt),Option.some.injEq]
  constructor
  · intro heq hbad
    have hlen := congrArg List.length heq
    rw [List.length_map,length_places] at hlen
    rcases hbad with rfl | ⟨k,hk⟩
    · cases n with
      | zero => simp [decimal] at hlen
      | succ n => exact absurd (hlow 0 (by omega)) (by simp)
    · have hkn : n ≤ k := by
        by_contra hlt
        have hbelow := hlow k (by omega)
        omega
      have hlong := lt_length_decimal (t := t) (k := k) (by omega)
      omega
  · intro hgood
    have h0 : t.toNat ≠ 0 := fun h0 => hgood (.inl (UInt64.toNat_inj.mp h0))
    have hten : t.toNat ≠ 10^n := fun hten => hgood (.inr ⟨n,hten⟩)
    cases n with
    | zero =>
      rw [pow_zero] at hpow hten
      omega
    | succ n =>
      have hbelow := hlow n (by omega)
      rw [decimal,toDigits_places (by decide) (by omega) (by omega : t.toNat < 10^(n+1)),
        List.map_map]
      rfl

/-- A thread id of up to 15 digits is its own name, unless it is zero or a power of ten. Two
other such ids have different names. -/
theorem fallback_decimal_iff {t t' : UInt64} (h : (decimal t).length ≤ MAX_THREAD_NAME-1)
    (h' : (decimal t').length ≤ MAX_THREAD_NAME-1) :
    (fallback_name t = some (decimal t) ↔ ¬ Misprinted t) ∧
      (¬ Misprinted t → ¬ Misprinted t' → fallback_name t = fallback_name t' → t = t') := by
  refine ⟨fallback_decimal h,fun hgood hgood' heq => ?_⟩
  rw [(fallback_decimal h).mpr hgood,(fallback_decimal h').mpr hgood'] at heq
  exact decimal_injective (Option.some.inj heq)

theorem printed_between {t : UInt64} {k : Nat} (hlow : 10^k < t.toNat)
    (hhigh : t.toNat < 10^(k+1)) : ¬ Misprinted t := by
  rintro (rfl | ⟨j,hj⟩)
  · exact absurd hlow (Nat.not_lt_zero _)
  · rw [hj] at hlow hhigh
    have hlow' := (Nat.pow_lt_pow_iff_right (by decide)).mp hlow
    have hhigh' := (Nat.pow_lt_pow_iff_right (by decide)).mp hhigh
    omega

theorem fallback_decimal_iff_two :
    fallback_name 4711 = some (decimal 4711) ∧ fallback_name 4711 ≠ fallback_name 47 := by
  have h : ¬ Misprinted 4711 := printed_between (k := 3) (by decide) (by decide)
  have h' : ¬ Misprinted 47 := printed_between (k := 1) (by decide) (by decide)
  have hlen : (decimal 4711).length ≤ MAX_THREAD_NAME-1 :=
    (length_decimal_le (by decide)).mpr (by decide)
  have hlen' : (decimal 47).length ≤ MAX_THREAD_NAME-1 :=
    (length_decimal_le (by decide)).mpr (by decide)
  obtain ⟨hname,hdistinct⟩ := fallback_decimal_iff hlen hlen'
  exact ⟨hname.mpr h,fun heq => absurd (hdistinct h h' heq) (by decide)⟩

theorem ten_misprinted : fallback_name 10 = some [48] ∧ decimal 10 = [49,48] ∧
    fallback_name 0 = some [] ∧ fallback_name 1 = some [] := by
  refine ⟨?_,by decide,?_,?_⟩ <;>
    simp [fallback_name,write_thread_name_fallback,countDigits,writeDigits,zeroed,
      MAX_THREAD_NAME,writeByte,c_char,from_ptr,Except.toOption,bind,Except.bind,pure,Except.pure]

/-- No write is out of range. The name ends inside the buffer, so that it can be read and
copied, up to ten to the fifteenth. -/
theorem fallback_terminated_iff (t : UInt64) :
    ∃ name, write_thread_name_fallback t zeroed = .ok name ∧ name.length = MAX_THREAD_NAME ∧
      ((0 ∈ name ∧ ∃ bytes, from_ptr name = some bytes ∧
          ∀ {F : Type} (frames : List F) (thread_id : UInt64) (sample_timestamp : SystemTime),
            ∃ u, UnresolvedFrames.new frames bytes thread_id sample_timestamp = .ok u) ↔
        t.toNat ≤ 10^(MAX_THREAD_NAME-1)) := by
  obtain ⟨n,hn,hcounted⟩ := fallback_eq t
  have hfits := hcounted.fits
  refine ⟨_,hn,by simp; omega,?_⟩
  rw [← hcounted.lt_iff]
  constructor
  · rintro ⟨hmem,-⟩
    rcases List.mem_append.mp hmem with hmem | hmem
    · exact absurd hmem (digits_ne _ _)
    · have hne := (List.mem_replicate.mp hmem).1
      omega
  · intro hlt
    have hne : MAX_THREAD_NAME-n ≠ 0 := by omega
    refine ⟨by simp [hne],_,(from_ptr_padded (digits_ne _ _) _).trans (if_neg hne),?_⟩
    intro F frames thread_id sample_timestamp
    have hlength : ((places 10 t.toNat n).map fun d => digitByte d.digitChar).length ≤
        MAX_THREAD_NAME := by simpa using hfits
    exact ⟨_,dif_pos hlength⟩

theorem sixteen_digits_unterminated :
    ∃ name, write_thread_name_fallback 1000000000000001 zeroed = .ok name ∧ 0 ∉ name ∧
      from_ptr name = none := by
  obtain ⟨n,hn,hcounted⟩ := fallback_eq 1000000000000001
  have hfull : ¬ n < MAX_THREAD_NAME := fun hlt => absurd (hcounted.lt_iff.mp hlt) (by decide)
  have h0 : MAX_THREAD_NAME-n = 0 := by omega
  rw [h0] at hn
  refine ⟨_,hn,by simpa using digits_ne _ _,?_⟩
  exact (from_ptr_padded (digits_ne _ _) 0).trans (if_pos rfl)

end Pprof
