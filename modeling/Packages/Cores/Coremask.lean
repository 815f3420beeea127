import Packages.Lib.Transition

/-!
# Core masks in `odp_common.c`

`odp_set_coremask` reads a hexadecimal numeral from its last digit on and writes the role and the
index of each of the 128 cores as it goes; what it has written is a list that grows by one entry for
each bit. After 32 digits only zeros may follow.
-/

namespace Packages.Coremask

open List

def maxCore : Nat := 128

inductive Role
 | roleOdp
 | roleOff
 deriving DecidableEq,Repr

/-- What is written for one core. -/
structure Mark where
 coreRole : Role
 coreIndex : Int

def Mark.off : Mark := ⟨.roleOff,-1⟩

/-- The part of `odp_config` and `gcore_config` that the parser writes. -/
structure Config where
 coreRole : Nat → Role
 coreIndex : Nat → Int
 coreNum : Nat

/-- The entries from core 0 on are overwritten. -/
def Config.write (cfg : Config) (marks : List Mark) : Config where
 coreRole c := (marks[c]?.map Mark.coreRole).getD (cfg.coreRole c)
 coreIndex c := (marks[c]?.map Mark.coreIndex).getD (cfg.coreIndex c)
 coreNum := cfg.coreNum

/-- The state of the loops: `idx` is the length of `marks`. -/
structure Cursor where
 marks : List Mark
 count : Nat

def isBlank (c : Char) : Bool := c == ' ' || c == '\t'

/-- The ranges of the `ctype` functions. -/
def between (lo hi c : Char) : Bool := decide (lo.toNat ≤ c.toNat) && decide (c.toNat ≤ hi.toNat)

def isXdigit (c : Char) : Bool := between '0' '9' c || between 'a' 'f' c || between 'A' 'F' c

def xdigit2val (c : Char) : Nat :=
 if between '0' '9' c then c.toNat - '0'.toNat
 else if between 'A' 'Z' c then c.toNat - 'A'.toNat+10
 else c.toNat - 'a'.toNat+10

section

variable (detected : Nat → Bool)

/-- The loop over the bits of a digit. An error is a return with what has been written so far. -/
def markBits (val : Nat) : List Nat → Cursor → Except Cursor Cursor
 | [],s => .ok s
 | j::js,s =>
  if maxCore ≤ s.marks.length then .ok s
  else if val.testBit j then
   if detected s.marks.length then
    markBits val js ⟨s.marks++[⟨.roleOdp,s.count⟩],s.count+1⟩
   else .error s
  else markBits val js ⟨s.marks++[.off],s.count⟩

/-- The loop over the characters, the last one first, with those left when it ends. -/
def markDigits : List Char → Cursor → Except Cursor (Cursor × List Char)
 | [],s => .ok (s,[])
 | c::cs,s =>
  if s.marks.length < maxCore then
   if isXdigit c then
    match markBits detected (xdigit2val c) (range' 0 4) s with
    | .ok s' => markDigits cs s'
    | .error s' => .error s'
   else .error s
  else .ok (s,c::cs)

def dropHexPrefix : List Char → List Char
 | '0' :: 'x' :: cs => cs
 | '0' :: 'X' :: cs => cs
 | cs => cs

/-- The mask behind its leading blanks and its `0x`. -/
def text (coremask : List Char) : List Char := dropHexPrefix (coremask.dropWhile isBlank)

/-- The numeral of a mask, the last digit first. -/
def numeral (coremask : List Char) : List Char := (text coremask).reverse.dropWhile isBlank

/-- No result for a text whose length does not fit into the `int` that counts it. -/
def setCoremask (coremask : List Char) (cfg : Config) : Option (Int × Config) :=
 if 2^31 ≤ (text coremask).length then none
 else if numeral coremask = [] then some (-1,cfg)
 else match markDigits detected (numeral coremask) ⟨[],0⟩ with
 | .error s => some (-1,cfg.write s.marks)
 | .ok (s,rest) =>
  if rest.all (· == '0') then
   let cfg' := cfg.write (s.marks++replicate (maxCore-s.marks.length) .off)
   if s.count = 0 then some (-1,cfg') else some (0,{ cfg' with coreNum := s.count })
  else some (-1,cfg.write s.marks)

/-- The loop of `odp_init_coremask`. A shift of 1 by 31 or more is not defined for an `int`. -/
def sumShifts : Nat → Option Nat
 | 0 => some 0
 | i+1 => (sumShifts i).bind fun numCores => if i < 31 then some (numCores+1 <<< i) else none

/-- The digits of a number below `16^k`, the last one first. -/
def hexDigits : Nat → Nat → List Char
 | 0,_ => []
 | k+1,n => if n = 0 then [] else Nat.digitChar (n%16)::hexDigits k (n/16)

/-- `sprintf` with the format `%x`. -/
def printHex (n : Nat) : List Char := if n = 0 then ['0'] else (hexDigits 8 n).reverse

def coreMaskLen : Nat := 8

/-- `odp_init_coremask` on a machine with `coreCount` cores: no result when it leaves its buffer. -/
def initCoremask (coreCount : Nat) (cfg : Config) : Option Config :=
 (sumShifts coreCount).bind fun numCores =>
  let coreMask := printHex numCores
  if coreMask.length+1 ≤ coreMaskLen then (setCoremask detected coreMask cfg).map Prod.snd else none

def value : List Char → Nat
 | [] => 0
 | c::cs => xdigit2val c+16*value cs

/-- The masks that can be set. -/
structure Settable (digits : List Char) : Prop where
 nonempty : digits ≠ []
 xdigits : ∀ c ∈ digits, isXdigit c = true
 ne_zero : value digits ≠ 0
 lt : value digits < 2^maxCore
 detected : ∀ i, (value digits).testBit i = true → detected i = true

/-- The cores of the set bits are enabled and numbered in their order. -/
structure Enables (v : Nat) (cfg : Config) : Prop where
 coreRole : ∀ c < maxCore, cfg.coreRole c = if v.testBit c then .roleOdp else .roleOff
 coreIndex : ∀ c < maxCore,
  cfg.coreIndex c = if v.testBit c then (Nat.count (v.testBit ·) c : Int) else -1
 coreNum : cfg.coreNum = Nat.count (v.testBit ·) maxCore

end

-- Digits

lemma xdigit2val_lt {c : Char} (h : isXdigit c = true) : xdigit2val c < 16 := by
 simp [isXdigit,between] at h
 simp only [xdigit2val,between,Bool.and_eq_true,decide_eq_true_eq,Char.reduceToNat]
 split_ifs <;> omega

lemma xdigit2val_eq_zero {c : Char} (h : xdigit2val c = 0) : c = '0' := by
 simp only [xdigit2val,between,Bool.and_eq_true,decide_eq_true_eq,Char.reduceToNat] at h
 apply Char.toNat_inj.mp
 show c.toNat = 48
 split_ifs at h
 omega

lemma forall_zero_iff {cs : List Char} :
 (∀ c ∈ cs, c = '0') ↔ (∀ c ∈ cs, isXdigit c = true) ∧ value cs = 0 := by
 induction cs with
 | nil => simp [value]
 | cons c cs ih =>
  rw [forall_mem_cons,forall_mem_cons,ih,value]
  constructor
  · rintro ⟨rfl,hx,hv⟩
    exact ⟨⟨rfl,hx⟩,by rw [hv]; rfl⟩
  · rintro ⟨⟨hc,hx⟩,hv⟩
    exact ⟨xdigit2val_eq_zero (by omega),hx,by omega⟩

-- The state of the loops after `n` bits of a value

def mark (v i : Nat) : Mark := if v.testBit i then ⟨.roleOdp,Nat.count (v.testBit ·) i⟩ else .off

def upTo (v n : Nat) : Cursor := ⟨(range n).map (mark v),Nat.count (v.testBit ·) n⟩

section

variable {detected : Nat → Bool} {v n d : Nat}

lemma length_upTo (v n : Nat) : (upTo v n).marks.length = n := by simp [upTo]

lemma upTo_succ_of_set (h : v.testBit n = true) :
 upTo v (n+1) = ⟨(upTo v n).marks++[⟨.roleOdp,(upTo v n).count⟩],(upTo v n).count+1⟩ := by
 simp [upTo,range_succ,mark,Nat.count_succ,h]

lemma upTo_succ_of_clear (h : v.testBit n = false) :
 upTo v (n+1) = ⟨(upTo v n).marks++[.off],(upTo v n).count⟩ := by
 simp [upTo,range_succ,mark,Nat.count_succ,h]

/-- The bits from `n` to `m` belong to detected cores. -/
def AllDetected (detected : Nat → Bool) (v n m : Nat) : Prop :=
 ∀ i, n ≤ i → i < m → v.testBit i = true → detected i = true

lemma markBits_cons {j : Nat} {js : List Nat} (hn : n < maxCore)
 (hbit : d.testBit j = v.testBit n) : markBits detected d (j::js) (upTo v n) =
  if v.testBit n = true → detected n = true then markBits detected d js (upTo v (n+1))
  else .error (upTo v n) := by
 rw [markBits,length_upTo,if_neg (by omega),hbit]
 by_cases hv : v.testBit n = true
 · rw [upTo_succ_of_set hv]
   simp [hv]
 · rw [upTo_succ_of_clear (by simpa using hv)]
   simp [hv]

lemma markBits_upTo (k : Nat) {j : Nat} (hn : n+k ≤ maxCore)
 (hbit : ∀ i < k, d.testBit (j+i) = v.testBit (n+i)) :
 (AllDetected detected v n (n+k) →
  markBits detected d (range' j k) (upTo v n) = .ok (upTo v (n+k))) ∧
 ∀ s, markBits detected d (range' j k) (upTo v n) = .ok s →
  AllDetected detected v n (n+k) := by
 induction k generalizing j n with
 | zero => exact ⟨fun _ => rfl,fun s _ i hi hlt => absurd hi (by omega)⟩
 | succ k ih =>
  have hrest := @ih (n+1) (j+1) (by omega) fun i hi => by
   have h := hbit (i+1) (by omega)
   rwa [← add_assoc,← add_assoc,add_right_comm j,add_right_comm n] at h
  rw [add_right_comm n 1 k] at hrest
  have hbit0 : d.testBit j = v.testBit n := hbit 0 (by omega)
  rw [range'_succ,markBits_cons (by omega) hbit0]
  constructor
  · intro hall
    rw [if_pos (hall n (le_refl n) (by omega))]
    exact hrest.1 fun i hi => hall i (by omega)
  · intro s hs
    split_ifs at hs with hfirst
    have hlater := hrest.2 s hs
    intro i hi hlt
    obtain rfl | hi := eq_or_lt_of_le hi
    · exact hfirst
    · exact hlater i hi hlt

lemma lt_of_testBit {i : Nat} (h : v < 2^n) (hi : v.testBit i = true) : i < n :=
 (Nat.pow_lt_pow_iff_right Nat.one_lt_two).mp ((Nat.ge_two_pow_of_testBit hi).trans_lt h)

lemma lt_of_div_eq_zero (h : v/2^n = 0) : v < 2^n :=
 (Nat.div_eq_zero_iff_lt (Nat.two_pow_pos n)).mp h

lemma bits_of_digit {c : Char} {cs : List Char} (hc : isXdigit c = true)
 (hv : v/2^n = value (c::cs)) :
 (∀ i < 4, (xdigit2val c).testBit (0+i) = v.testBit (n+i)) ∧ v/2^(n+4) = value cs := by
 have hlt := xdigit2val_lt hc
 rw [value] at hv
 constructor
 · intro i hi
   have hsum := Nat.testBit_two_pow_mul_add (value cs) (i := 4) hlt i
   rw [if_pos hi,add_comm] at hsum
   rw [zero_add,← hsum,add_comm n i,← Nat.testBit_div_two_pow,hv]
 · rw [pow_add,← Nat.div_div_eq_div_mul]
   omega

/-- What is left to be read is accepted. -/
structure Rest (detected : Nat → Bool) (v n : Nat) (cs : List Char) : Prop where
 xdigits : ∀ c ∈ cs, isXdigit c = true
 lt : v < 2^maxCore
 detected : AllDetected detected v n maxCore

/-- The loops end, with only zeros left, exactly when the rest is accepted. Induction on the
characters; the value above the bits read is that of the characters left. -/
lemma markDigits_upTo {cs : List Char} (hv : v/2^n = value cs) (h4 : 4 ∣ n) (hn : n ≤ maxCore) :
 (Rest detected v n cs → ∃ m rest, markDigits detected cs (upTo v n) = .ok (upTo v m,rest) ∧
  (∀ c ∈ rest, c = '0') ∧ v < 2^m ∧ m ≤ maxCore) ∧
 ∀ s rest, markDigits detected cs (upTo v n) = .ok (s,rest) → (∀ c ∈ rest, c = '0') →
  Rest detected v n cs := by
 have hmax : maxCore = 128 := rfl
 induction cs generalizing n with
 | nil =>
  have hlt : v < 2^n := lt_of_div_eq_zero hv
  refine ⟨fun _ => ⟨n,[],rfl,by simp,hlt,hn⟩,fun s rest _ _ => ⟨by simp,?_,?_⟩⟩
  · exact hlt.trans_le (Nat.pow_le_pow_right two_pos hn)
  · exact fun i hi _ hbit => absurd (lt_of_testBit hlt hbit) (by omega)
 | cons c cs ih =>
  rw [markDigits,length_upTo]
  by_cases hlt : n < maxCore
  · rw [if_pos hlt]
    by_cases hc : isXdigit c = true
    · rw [if_pos hc]
      obtain ⟨hbits,habove⟩ := bits_of_digit hc hv
      have hdigit := @markBits_upTo detected v n (xdigit2val c) 4 0 (by omega) hbits
      obtain ⟨hto,hfrom⟩ := ih habove (by omega) (by omega)
      constructor
      · intro h
        rw [hdigit.1 fun i hi hlt => h.detected i hi (by omega)]
        exact hto ⟨fun x hx => h.xdigits x (mem_cons_of_mem c hx),h.lt,
         fun i hi => h.detected i (by omega)⟩
      · intro s rest hs hzero
        cases hm : markBits detected (xdigit2val c) (range' 0 4) (upTo v n) with
        | error s' => simp [hm] at hs
        | ok s' =>
         have hfirst := hdigit.2 s' hm
         rw [hdigit.1 hfirst] at hs
         have hlater := hfrom s rest hs hzero
         refine ⟨forall_mem_cons.mpr ⟨hc,hlater.xdigits⟩,hlater.lt,fun i hi hlt => ?_⟩
         by_cases hin : i < n+4
         · exact hfirst i hi hin
         · exact hlater.detected i (by omega) hlt
    · rw [if_neg hc]
      exact ⟨fun h => absurd (h.xdigits c mem_cons_self) hc,fun s rest hs => by cases hs⟩
  · obtain rfl : n = maxCore := by omega
    constructor
    · intro h
      have hzero : value (c::cs) = 0 := hv ▸ Nat.div_eq_of_lt h.lt
      exact ⟨maxCore,c::cs,rfl,forall_zero_iff.mpr ⟨h.xdigits,hzero⟩,h.lt,le_refl _⟩
    · rintro s rest hs hzero
      cases hs
      obtain ⟨hx,hzero⟩ := forall_zero_iff.mp hzero
      exact ⟨hx,lt_of_div_eq_zero (hv.trans hzero),fun i hi hlt => absurd hi (by omega)⟩

-- What is written and returned

lemma upTo_add {m : Nat} (hv : v < 2^m) (k : Nat) :
 upTo v (m+k) = ⟨(upTo v m).marks++replicate k .off,(upTo v m).count⟩ := by
 induction k with
 | zero => simp
 | succ k ih =>
  have hclear : v.testBit (m+k) = false :=
   Bool.eq_false_iff.mpr fun hbit => absurd (lt_of_testBit hv hbit) (by omega)
  rw [← add_assoc,upTo_succ_of_clear hclear,ih,replicate_succ',
   append_assoc]

lemma enables_upTo (cfg : Config) :
 Enables v { cfg.write (upTo v maxCore).marks with coreNum := (upTo v maxCore).count } := by
 refine ⟨fun c hc => ?_,fun c hc => ?_,rfl⟩
 · simp [Config.write,upTo,hc,mark,apply_ite Mark.coreRole,Mark.off]
 · simp [Config.write,upTo,hc,mark,apply_ite Mark.coreIndex,Mark.off]

lemma count_upTo_ne_zero (hne : v ≠ 0) (hlt : v < 2^maxCore) : (upTo v maxCore).count ≠ 0 := by
 obtain ⟨i,hi⟩ := Nat.exists_testBit_of_ne_zero hne
 have hsucc : Nat.count (v.testBit ·) (i+1) = Nat.count (v.testBit ·) i+1 := by
  simp [Nat.count_succ,hi]
 have hmono := Nat.count_monotone (fun i => v.testBit i = true)
  (show i+1 ≤ maxCore from lt_of_testBit hlt hi)
 show Nat.count _ _ ≠ 0
 omega

variable {coremask : List Char} {cfg : Config}

lemma value_div_one (cs : List Char) : value cs/2^0 = value cs := by simp

lemma setCoremask_of_settable (hlen : (text coremask).length < 2^31)
 (h : Settable detected (numeral coremask)) : ∃ cfg', setCoremask detected coremask cfg =
  some (0,cfg') ∧ Enables (value (numeral coremask)) cfg' := by
 obtain ⟨m,rest,hrun,hzero,hlt,hm⟩ :=
  (markDigits_upTo (value_div_one _) (dvd_zero 4) (Nat.zero_le _)).1
  ⟨h.xdigits,h.lt,fun i _ _ => h.detected i⟩
 have hpad := upTo_add hlt (maxCore-m)
 rw [Nat.add_sub_cancel' hm] at hpad
 have hrun' : markDigits detected (numeral coremask) ⟨[],0⟩ = _ := hrun
 have hall : rest.all (· == '0') = true := by simpa using hzero
 have hcount := count_upTo_ne_zero h.ne_zero h.lt
 have henables := enables_upTo (v := value (numeral coremask)) cfg
 rw [hpad] at hcount henables
 rw [setCoremask,if_neg (not_le.mpr hlen),if_neg h.nonempty,hrun']
 simp only [hall,if_true,length_upTo,if_neg hcount]
 exact ⟨_,rfl,henables⟩

lemma settable_of_setCoremask {cfg' : Config}
 (h : setCoremask detected coremask cfg = some (0,cfg')) :
 Settable detected (numeral coremask) := by
 rw [setCoremask] at h
 split_ifs at h with hlen hnonempty
 · cases h
 cases hrun : markDigits detected (numeral coremask) ⟨[],0⟩ with
 | error s => simp [hrun] at h
 | ok r =>
  obtain ⟨s,rest⟩ := r
  have hloops := @markDigits_upTo detected _ _ _ (value_div_one (numeral coremask)) (dvd_zero 4)
   (Nat.zero_le _)
  have hall : rest.all (· == '0') = true := by
   by_contra hall
   simp [hrun,hall] at h
  have hrest := hloops.2 s rest hrun (by simpa using hall)
  refine ⟨hnonempty,hrest.xdigits,fun hzero => ?_,hrest.lt,
   fun i hi => hrest.detected i (Nat.zero_le i) (lt_of_testBit hrest.lt hi) hi⟩
  -- No bit of zero is counted, and a mask without cores is refused.
  obtain ⟨m,rest',hrun',-⟩ := hloops.1 hrest
  cases hrun.symm.trans hrun'
  have hcount : (upTo (value (numeral coremask)) m).count = 0 := by simp [upTo,hzero]
  simp [hrun,hall,hcount] at h

lemma setCoremask_returns (hlen : (text coremask).length < 2^31) :
 ∃ ret cfg', setCoremask detected coremask cfg = some (ret,cfg') := by
 rw [setCoremask,if_neg (not_le.mpr hlen)]
 split_ifs
 · exact ⟨_,_,rfl⟩
 cases markDigits detected (numeral coremask) ⟨[],0⟩ with
 | error s => exact ⟨_,_,rfl⟩
 | ok r =>
  dsimp only
  split_ifs <;> exact ⟨_,_,rfl⟩

end

/-- A mask is set exactly when it is the numeral of a non-empty set of detected cores, and then
exactly these cores are enabled. The only caller has a buffer of 8 characters. -/
theorem set_coremask_parses (detected : Nat → Bool) (coremask : List Char) (cfg : Config)
 (hlen : (text coremask).length < 2^31) :
 ∃ ret cfg', setCoremask detected coremask cfg = some (ret,cfg') ∧
  (ret = 0 ↔ Settable detected (numeral coremask)) ∧
  (ret = 0 → Enables (value (numeral coremask)) cfg') := by
 obtain ⟨ret,cfg',hret⟩ : ∃ ret cfg', setCoremask detected coremask cfg = some (ret,cfg') :=
  setCoremask_returns hlen
 have hset : ret = 0 → Settable detected (numeral coremask) := by
  rintro rfl
  exact settable_of_setCoremask hret
 have hof : Settable detected (numeral coremask) → ret = 0 ∧
  Enables (value (numeral coremask)) cfg' := by
  intro h
  obtain ⟨cfg'',hzero,henables⟩ := setCoremask_of_settable hlen h
  cases hret.symm.trans hzero
  exact ⟨rfl,henables⟩
 exact ⟨ret,cfg',hret,⟨hset,fun h => (hof h).1⟩,fun h => (hof (hset h)).2⟩

/-- A blank, a prefix and more digits than the masks of all cores have. -/
theorem set_coremask_parses_five : let coremask := [' ', '0', 'x']++replicate 33 '0'++['5']
 ∃ cfg', setCoremask (· < 4) coremask ⟨fun _ => .roleOff,fun _ => -1,0⟩ = some (0,cfg') ∧
 Enables 5 cfg' := by
 intro coremask
 obtain ⟨ret,cfg',hret,hiff,henables⟩ :=
  set_coremask_parses (· < 4) coremask ⟨fun _ => .roleOff,fun _ => -1,0⟩ (by decide)
 have hvalue : value (numeral coremask) = 5 := by decide +kernel
 have hbits : ∀ i, Nat.testBit 5 i = true → i < 4 := fun i hi =>
  (lt_of_testBit (n := 3) (by decide) hi).trans (by decide)
 have hzero : ret = 0 := by
  refine hiff.mpr ⟨by decide +kernel,all_eq_true.mp (by decide +kernel),?_,?_,fun i hi => ?_⟩
  · omega
  · exact hvalue.trans_lt (by decide)
  · exact decide_eq_true (hbits i (hvalue ▸ hi))
 rw [hvalue] at henables
 exact ⟨cfg',hzero ▸ hret,henables hzero⟩

-- The default mask

lemma sumShifts_eq (n : Nat) : sumShifts n = if n ≤ 31 then some (2^n-1) else none := by
 induction n with
 | zero => rfl
 | succ i ih =>
  rw [sumShifts,ih]
  by_cases hi : i < 31
  · rw [if_pos hi.le,if_pos (show i+1 ≤ 31 from hi),Option.bind_some,if_pos hi,Nat.one_shiftLeft,
     pow_succ]
    congr 1
    omega
  · rw [if_neg (show ¬ i+1 ≤ 31 by omega)]
    split_ifs <;> simp

lemma digitChar_xdigit : ∀ d < 16,
 isXdigit (Nat.digitChar d) = true ∧ xdigit2val (Nat.digitChar d) = d := by
 decide

lemma hexDigits_spec {k n : Nat} (h : n < 16^k) :
 (∀ c ∈ hexDigits k n, isXdigit c = true) ∧ value (hexDigits k n) = n := by
 induction k generalizing n with
 | zero => exact ⟨by simp [hexDigits],by simp_all [hexDigits,value]⟩
 | succ k ih =>
  rw [hexDigits]
  split_ifs with hn
  · exact ⟨by simp,hn.symm⟩
  · obtain ⟨hx,hvalue⟩ := @ih (n/16) (by rw [pow_succ] at h; omega)
    obtain ⟨hd,hval⟩ := digitChar_xdigit (n%16) (Nat.mod_lt n (by decide))
    refine ⟨forall_mem_cons.mpr ⟨hd,hx⟩,?_⟩
    rw [value]
    omega

/-- The masks that fit into the buffer are read back as they are printed. -/
lemma printed_masks : ∀ n < 29, 0 < n → (printHex (2^n-1)).length+1 ≤ coreMaskLen ∧
 (text (printHex (2^n-1))).length < 8 ∧ numeral (printHex (2^n-1)) = hexDigits 8 (2^n-1) ∧
 Nat.count ((2^n-1).testBit ·) maxCore = n := by
 decide +kernel

/-- `odp_init_coremask` stays in its buffer and enables the `n` cores of the machine. -/
def InitEnables (n : Nat) (cfg : Config) : Prop :=
 ∃ cfg', initCoremask (· < n) n cfg = some cfg' ∧
  (∀ c < maxCore, cfg'.coreRole c = if c < n then .roleOdp else .roleOff) ∧ cfg'.coreNum = n

/-- The default mask is right for up to 28 cores: for 29 the numeral has eight digits, and its end
does not fit into the buffer. -/
theorem init_coremask_exact (n : Nat) (cfg : Config) (hpos : 1 ≤ n) :
 InitEnables n cfg ↔ n ≤ 28 := by
 constructor
 · rintro ⟨cfg',hinit,-⟩
   by_contra hgt
   rw [initCoremask,sumShifts_eq] at hinit
   by_cases hn : n ≤ 31
   · have hdigits : ∀ m < 32, 28 < m → ¬ (printHex (2^m-1)).length+1 ≤ coreMaskLen := by
      decide +kernel
     rw [if_pos hn,Option.bind_some,if_neg (hdigits n (by omega) (by omega))] at hinit
     cases hinit
   · rw [if_neg hn] at hinit
     cases hinit
 · intro hn
   obtain ⟨hfits,hlen,hnumeral,hcount⟩ := printed_masks n (by omega) hpos
   have hpow : 2^1 ≤ 2^n := Nat.pow_le_pow_right two_pos hpos
   have hle : 2^n ≤ 2^28 := Nat.pow_le_pow_right two_pos hn
   obtain ⟨hx,hvalue⟩ := @hexDigits_spec 8 (2^n-1) (by omega)
   rw [← hnumeral] at hx hvalue
   have hset : Settable (· < n) (numeral (printHex (2^n-1))) := by
    refine ⟨fun hnil => ?_,hx,by omega,by unfold maxCore; omega,fun i hi => ?_⟩
    · rw [hnil,value] at hvalue
      omega
    · rw [hvalue,Nat.testBit_two_pow_sub_one] at hi
      exact hi
   obtain ⟨cfg',hcfg,henables⟩ := @setCoremask_of_settable _ _ cfg (by omega) hset
   rw [hvalue] at henables
   refine ⟨cfg',?_,fun c hc => ?_,henables.coreNum.trans hcount⟩
   · rw [initCoremask,sumShifts_eq,if_pos (by omega),Option.bind_some,if_pos hfits,hcfg]
     rfl
   · rw [henables.coreRole c hc,Nat.testBit_two_pow_sub_one]
     simp

theorem init_coremask_exact_four : InitEnables 4 ⟨fun _ => .roleOff,fun _ => -1,0⟩ :=
 (init_coremask_exact 4 _ (by decide)).mpr (by decide)

/-- With 29 cores `sprintf` writes nine bytes. -/
theorem init_coremask_overflows : sumShifts 29 = some (2^29-1) ∧
 (printHex (2^29-1)).length+1 = 9 ∧ coreMaskLen = 8 ∧
 ∀ cfg, initCoremask (· < 29) 29 cfg = none := by
 refine ⟨by decide,by decide +kernel,rfl,fun cfg => ?_⟩
 rw [initCoremask,sumShifts_eq,if_pos (by decide),Option.bind_some,if_neg (by decide +kernel)]

end Packages.Coremask
