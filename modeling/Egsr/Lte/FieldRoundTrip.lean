import Mathlib.Algebra.Group.Int.Defs
import Mathlib.Algebra.GroupWithZero.Nat
import Egsr.Lte.BitStream

/-! Fields that are written are read back, but for two kinds of them: a bitset
of 256 bits or more, and an integer of which the interval has one value, which
the decoder leaves as it is. -/

namespace Egsr.Lte

open Lib.BitOrder Lib.Outcome Asn1Header List

def InInterval (nmin nmax n : ℤ) : Prop := nmin ≤ n ∧ n ≤ nmax ∧ nmax - nmin + 1 ≤ 2 ^ 20

def integerWidth (nmin nmax : ℤ) : ℕ :=
  if nmax - nmin + 1 ≤ 1 then 0 else requiredBits (nmax - nmin + 1)

def integerBits (nmin nmax n : ℤ) : List Bool :=
  if nmax - nmin + 1 ≤ 1 then []
  else lowBits (BitVec.ofInt (requiredBits (nmax - nmin + 1)) (n - nmin))
    (requiredBits (nmax - nmin + 1))

def integerOf (nmin nmax old : ℤ) (bs : List Bool) : ℤ :=
  if nmax - nmin + 1 ≤ 1 then old
  else (assign (0 : BitVec (requiredBits (nmax - nmin + 1))) (requiredBits (nmax - nmin + 1))
    bs).toNat + nmin

theorem length_integerBits (nmin nmax n : ℤ) :
    (integerBits nmin nmax n).length = integerWidth nmin nmax := by
  unfold integerBits integerWidth
  split_ifs
  · rfl
  · exact length_lowBits ..

theorem requiredBits_bounds {range : ℤ} (pos : 1 < range) (le : range ≤ 2 ^ 20) :
    1 ≤ requiredBits range ∧ requiredBits range ≤ 20 := by
  have hle : range.toNat ≤ 2 ^ 20 := by omega
  exact ⟨Nat.clog_pos (by decide) (by omega), Nat.clog_le_of_le_pow hle⟩

variable {h : Asn1Header}

theorem serializeInteger_spec (clean : h.Clean) {nmin nmax n : ℤ} (valid : InInterval nmin nmax n) :
    Ensures (h.serializeInteger n nmin nmax)
      (fun h' => h'.written = h.written ++ integerBits nmin nmax n ∧ h'.Clean) fun _ => False := by
  unfold serializeInteger integerBits
  by_cases hone : nmax - nmin + 1 ≤ 1
  · simp only [if_pos hone, append_nil]
    exact ⟨rfl, clean⟩
  · have hbounds := requiredBits_bounds (by omega) valid.2.2
    simp only [if_neg hone, if_pos hbounds]
    have hspec := serializeBitset_spec clean
      (BitVec.ofInt (requiredBits (nmax - nmin + 1)) (n - nmin)) (by omega)
    rwa [Nat.mod_eq_of_lt (by omega)] at hspec

theorem integerOf_integerBits {nmin nmax n : ℤ} (valid : InInterval nmin nmax n) (old : ℤ) :
    integerOf nmin nmax old (integerBits nmin nmax n) = n ↔ (nmin = nmax → old = n) := by
  obtain ⟨hmin, hmax, -⟩ := valid
  unfold integerOf integerBits
  by_cases hone : nmax - nmin + 1 ≤ 1
  · have heq : nmin = nmax := by omega
    simp [heq]
  · have hne : nmin ≠ nmax := by omega
    have hpow : (nmax - nmin + 1).toNat ≤ 2 ^ requiredBits (nmax - nmin + 1) :=
      Nat.le_pow_clog (by decide) _
    have hcast : ((2 ^ requiredBits (nmax - nmin + 1) : ℕ) : ℤ) =
        2 ^ requiredBits (nmax - nmin + 1) := by simp
    have hmod : (n - nmin) % 2 ^ requiredBits (nmax - nmin + 1) = n - nmin :=
      Int.emod_eq_of_lt (by omega) (by omega)
    have hnat : ((BitVec.ofInt (requiredBits (nmax - nmin + 1)) (n - nmin)).toNat : ℤ) =
        n - nmin := by
      rw [BitVec.toNat_ofInt, hcast, hmod]
      omega
    rw [if_neg hone, if_neg hone, assign_lowBits, hnat]
    simp [hne]

/-- `x` reads `w` bits, of which `value` is made, or there are too few. -/
def Takes {β : Type} (r : Reading) (w : ℕ) (x : Except Fault (β × Reading))
    (value : List Bool → β) : Prop :=
  Ensures x (fun r' => w ≤ (unread r).length ∧ r'.1 = value ((unread r).take w) ∧
    unread r'.2 = (unread r).drop w) fun _ => (unread r).length < w

theorem takes_ok {β : Type} (r : Reading) (b : β) : Takes r 0 (.ok (b, r)) fun _ => b :=
  ensures_ok.mpr ⟨Nat.zero_le _, rfl, rfl⟩

theorem Takes.bind {β γ : Type} {r : Reading} {w w' : ℕ} {x : Except Fault (β × Reading)}
    {value : List Bool → β} {f : β × Reading → Except Fault (γ × Reading)}
    {g : β → List Bool → γ} (h : Takes r w x value) (rest : ∀ b r', Takes r' w' (f (b, r')) (g b)) :
    Takes r (w + w') (x >>= f) fun bs => g (value (bs.take w)) (bs.drop w) := by
  refine Ensures.bind (h.mono (fun _ hr => hr) fun _ he => by omega) fun r₁ hr => ?_
  obtain ⟨hle, hvalue, hunread⟩ := hr
  refine (rest r₁.1 r₁.2).mono (fun r₂ hr => ?_) fun _ he => ?_
  · rw [hunread, length_drop] at hr
    refine ⟨by omega, ?_, ?_⟩
    · dsimp only
      rw [hr.2.1, hvalue, take_take, Nat.min_eq_left (by omega), drop_take, Nat.add_sub_cancel_left]
    · rw [hr.2.2, drop_drop]
  · rw [hunread, length_drop] at he
    omega

theorem Takes.map {β γ : Type} {r : Reading} {w : ℕ} {x : Except Fault (β × Reading)}
    {value : List Bool → β} {f : β → γ} (h : Takes r w x value) :
    Takes r w (x >>= fun p => .ok (f p.1, p.2)) fun bs => f (value bs) :=
  Ensures.bind h fun _ hr => ⟨hr.1, congrArg f hr.2.1, hr.2.2⟩

theorem deserializeBitset_takes {N : ℕ} (data : BitVec N) (r : Reading) :
    Takes r N (deserializeBitset data r) (assign data N) := deserializeBitset_spec data r

theorem deserializeBoolean_takes (r : Reading) :
    Takes r 1 (deserializeBoolean r) fun bs => (assign (0 : BitVec 1) 1 bs).getLsbD 0 :=
  (deserializeBitset_takes 0 r).map (f := fun readBit : BitVec 1 => readBit.getLsbD 0)

theorem deserializeInteger_eq {nmin nmax : ℤ} (le : nmin ≤ nmax) (n : ℤ) (r : Reading) :
    deserializeInteger n nmin nmax r =
      if nmax - nmin + 1 = 1 then .ok (n, r)
      else if 1 ≤ requiredBits (nmax - nmin + 1) ∧ requiredBits (nmax - nmin + 1) ≤ 20 then
        deserializeBitset (0 : BitVec (requiredBits (nmax - nmin + 1))) r >>= fun p =>
          .ok (p.1.toNat + nmin, p.2)
      else .error .exit := by
  have hswap : (if nmin > nmax then (nmax, nmin) else (nmin, nmax)) = (nmin, nmax) :=
    if_neg (by omega)
  unfold deserializeInteger
  rw [hswap]

theorem deserializeInteger_takes {nmin nmax n : ℤ} (valid : InInterval nmin nmax n) (old : ℤ)
    (r : Reading) :
    Takes r (integerWidth nmin nmax) (deserializeInteger old nmin nmax r)
      (integerOf nmin nmax old) := by
  obtain ⟨hmin, hmax, hrange⟩ := valid
  rw [deserializeInteger_eq (by omega)]
  unfold integerOf integerWidth
  by_cases hone : nmax - nmin + 1 ≤ 1
  · have heq : nmax - nmin + 1 = 1 := by omega
    simp only [if_pos hone, if_pos heq]
    exact takes_ok r old
  · have hne : nmax - nmin + 1 ≠ 1 := by omega
    simp only [if_neg hone, if_neg hne, if_pos (requiredBits_bounds (by omega) hrange)]
    exact (deserializeBitset_takes 0 r).map (f :=
      fun bitsRead : BitVec _ => (bitsRead.toNat : ℤ) + nmin)

/-! ## Fields -/

namespace Format

def Valid : (f : Format) → f.Value → Prop
  | bitset N, _ => N ≤ 65536
  | boolean, _ => True
  | integer nmin nmax, n => InInterval nmin nmax n
  | enumeration numElems, selectedElem => InInterval 0 (numElems - 1) selectedElem
  | choice numOptions _, selectedOption => InInterval 0 (numOptions - 1) selectedOption
  | sequence N _, _ => N ≤ 65536
  | sequenceOf nMax nMin, numElems => InInterval nMin nMax numElems
  | null, _ => True

/-- Whether the value is what will be in the variable: the size of a bitset fits into eight bits,
and where only one value is possible, the variable contains it already. -/
def Recovered : (f : Format) → (value old : f.Value) → Prop
  | bitset N, _, _ => N < 256
  | boolean, _, _ => True
  | integer nmin nmax, n, old => nmin = nmax → old = n
  | enumeration numElems, selectedElem, old => numElems = 1 → old = selectedElem
  | choice numOptions _, selectedOption, old => numOptions = 1 → old = selectedOption
  | sequence N _, _, _ => N < 256
  | sequenceOf nMax nMin, numElems, old => nMin = nMax → old = numElems
  | null, _, _ => True

def markerBits (isExtensionMarkerPresent : Bool) : List Bool :=
  if isExtensionMarkerPresent then [false] else []

def bits : (f : Format) → f.Value → List Bool
  | bitset N, data => lowBits (n := N) data (N % 256)
  | boolean, value => [value]
  | integer nmin nmax, n => integerBits nmin nmax n
  | enumeration numElems, selectedElem => integerBits 0 (numElems - 1) selectedElem
  | choice numOptions ext, selectedOption =>
    markerBits ext ++ integerBits 0 (numOptions - 1) selectedOption
  | sequence N ext, mask => markerBits ext ++ lowBits (n := N) mask (N % 256)
  | sequenceOf nMax nMin, numElems => integerBits nMin nMax numElems
  | null, _ => []

def width : Format → ℕ
  | bitset N => N
  | boolean => 1
  | integer nmin nmax => integerWidth nmin nmax
  | enumeration numElems => integerWidth 0 (numElems - 1)
  | choice numOptions ext => (markerBits ext).length + integerWidth 0 (numOptions - 1)
  | sequence N ext => (markerBits ext).length + N
  | sequenceOf nMax nMin => integerWidth nMin nMax
  | null => 0

def valueOf : (f : Format) → (old : f.Value) → List Bool → f.Value
  | bitset N, data, bs => assign (n := N) data N bs
  | boolean, _, bs => (assign (0 : BitVec 1) 1 bs).getLsbD 0
  | integer nmin nmax, n, bs => integerOf nmin nmax n bs
  | enumeration numElems, selectedElem, bs => integerOf 0 (numElems - 1) selectedElem bs
  | choice numOptions ext, selectedOption, bs =>
    integerOf 0 (numOptions - 1) selectedOption (bs.drop (markerBits ext).length)
  | sequence N ext, mask, bs => assign (n := N) mask N (bs.drop (markerBits ext).length)
  | sequenceOf nMax nMin, numElems, bs => integerOf nMin nMax numElems bs
  | null, _, _ => ()

end Format

theorem serializeBoolean_spec (clean : h.Clean) (value : Bool) :
    (h.serializeBoolean value).written = h.written ++ [value] ∧
    (h.serializeBoolean value).Clean := by
  have hspec := serializeBitset_spec clean (BitVec.ofBool value) (by decide)
  cases value <;> exact hspec

theorem marker_spec (clean : h.Clean) (ext : Bool) :
    (if ext then h.serializeBoolean false else h).written = h.written ++ Format.markerBits ext ∧
      (if ext then h.serializeBoolean false else h).Clean := by
  cases ext
  · exact ⟨(append_nil _).symm, clean⟩
  · exact serializeBoolean_spec clean false

theorem serializeChoice_spec (clean : h.Clean) {numOptions selectedOption : ℤ}
    (valid : InInterval 0 (numOptions - 1) selectedOption) (ext : Bool) :
    Ensures (h.serializeChoice numOptions selectedOption ext)
      (fun h' => h'.written = h.written ++ (Format.markerBits ext ++
        integerBits 0 (numOptions - 1) selectedOption) ∧ h'.Clean) fun _ => False := by
  have hmarker := marker_spec clean ext
  rw [← append_assoc, ← hmarker.1]
  simp only [serializeChoice]
  by_cases hfew : numOptions < 2
  · have hnone : integerBits 0 (numOptions - 1) selectedOption = [] := if_pos (by omega)
    rw [if_pos hfew, hnone, append_nil]
    exact ⟨rfl, hmarker.2⟩
  · rw [if_neg hfew]
    exact serializeInteger_spec hmarker.2 valid

theorem serializeSequence_spec {N : ℕ} (clean : h.Clean) (mask : BitVec N) (le : N ≤ 65536)
    (ext : Bool) : (h.serializeSequence mask ext).written =
        h.written ++ (Format.markerBits ext ++ lowBits mask (N % 256)) ∧
      (h.serializeSequence mask ext).Clean := by
  have hmarker := marker_spec clean ext
  rw [← append_assoc, ← hmarker.1]
  exact serializeBitset_spec hmarker.2 mask le

theorem serialize_spec (clean : h.Clean) {f : Format} {value : f.Value} (valid : f.Valid value) :
    Ensures (f.serialize value h)
      (fun h' => h'.written = h.written ++ f.bits value ∧ h'.Clean) fun _ => False := by
  cases f with
  | bitset N => exact serializeBitset_spec clean value valid
  | boolean => exact serializeBoolean_spec clean value
  | integer nmin nmax => exact serializeInteger_spec clean valid
  | enumeration numElems => exact serializeInteger_spec clean valid
  | choice numOptions ext => exact serializeChoice_spec clean valid ext
  | sequence N ext => exact serializeSequence_spec clean value valid ext
  | sequenceOf nMax nMin => exact serializeInteger_spec clean valid
  | null => exact ensures_ok.mpr ⟨(append_nil _).symm, clean⟩

theorem marker_takes {β : Type} {r : Reading} {w : ℕ} {f : Reading → Except Fault (β × Reading)}
    {value : List Bool → β} (ext : Bool) (rest : ∀ r', Takes r' w (f r') value) :
    Takes r ((Format.markerBits ext).length + w)
      ((if ext then (deserializeBoolean r).map Prod.snd else .ok r) >>= f)
      fun bs => value (bs.drop (Format.markerBits ext).length) := by
  cases ext
  · have hrest := rest r
    rw [← Nat.zero_add w] at hrest
    exact hrest
  · have hboth := (deserializeBoolean_takes r).bind (f := fun p => f p.2) fun _ r' => rest r'
    cases hrun : deserializeBoolean r with
    | ok p =>
      rw [hrun] at hboth
      exact hboth
    | error e =>
      rw [hrun] at hboth
      exact hboth

theorem deserialize_takes {f : Format} {value : f.Value} (valid : f.Valid value) (old : f.Value)
    (r : Reading) : Takes r f.width (f.deserialize old r) (f.valueOf old) := by
  cases f with
  | bitset N => exact deserializeBitset_takes (N := N) old r
  | boolean => exact deserializeBoolean_takes r
  | integer nmin nmax => exact deserializeInteger_takes valid old r
  | enumeration numElems => exact deserializeInteger_takes valid old r
  | choice numOptions ext =>
    exact marker_takes ext fun r' => deserializeInteger_takes valid old r'
  | sequence N ext => exact marker_takes ext fun r' => deserializeBitset_takes (N := N) old r'
  | sequenceOf nMax nMin => exact deserializeInteger_takes valid old r
  | null => exact takes_ok r ()

namespace Format

def Fits : Format → Prop
  | bitset N => N < 256
  | sequence N _ => N < 256
  | _ => True

theorem length_bits {f : Format} (fits : f.Fits) (value : f.Value) :
    (f.bits value).length = f.width := by
  cases f with
  | bitset N => exact (length_lowBits _ _).trans (Nat.mod_eq_of_lt fits)
  | boolean => rfl
  | integer nmin nmax => exact length_integerBits ..
  | enumeration numElems => exact length_integerBits ..
  | choice numOptions ext =>
    exact length_append.trans (congrArg _ (length_integerBits ..))
  | sequence N ext =>
    exact length_append.trans (congrArg _ ((length_lowBits _ _).trans (Nat.mod_eq_of_lt fits)))
  | sequenceOf nMax nMin => exact length_integerBits ..
  | null => rfl

theorem length_bits_of_not_fits {f : Format} (unfit : ¬f.Fits) (value : f.Value) :
    (f.bits value).length + 256 ≤ f.width := by
  cases f with
  | bitset N =>
    have hle : 256 ≤ N := Nat.le_of_not_lt unfit
    have hlen : ((bitset N).bits value).length = N % 256 := length_lowBits _ _
    rw [hlen, width]
    omega
  | sequence N ext =>
    have hle : 256 ≤ N := Nat.le_of_not_lt unfit
    have hlen : ((sequence N ext).bits value).length = (markerBits ext).length + N % 256 :=
      length_append.trans (congrArg _ (length_lowBits _ _))
    rw [hlen, width]
    omega
  | _ => exact absurd trivial unfit

theorem Recovered.fits {f : Format} {value old : f.Value} (h : f.Recovered value old) : f.Fits := by
  cases f with
  | bitset N => exact h
  | sequence N ext => exact h
  | _ => trivial

theorem valueOf_bits {f : Format} {value : f.Value} (valid : f.Valid value) (fits : f.Fits)
    (old : f.Value) : f.valueOf old (f.bits value) = value ↔ f.Recovered value old := by
  have hmarker : ∀ ext bs, (markerBits ext ++ bs).drop (markerBits ext).length = bs :=
    fun ext bs => drop_left
  have hmask : ∀ {N : ℕ} (data mask : BitVec N), N < 256 → assign data N (lowBits mask (N % 256)) =
      mask := by
    intro N data mask hN
    rw [Nat.mod_eq_of_lt hN, assign_lowBits]
  have hone : ∀ k : ℤ, (0 : ℤ) = k - 1 ↔ k = 1 := by omega
  cases f with
  | bitset N => exact iff_of_true (hmask old value fits) fits
  | boolean => cases value <;> exact iff_of_true rfl trivial
  | integer nmin nmax => exact integerOf_integerBits valid old
  | enumeration numElems =>
    refine (integerOf_integerBits valid old).trans ?_
    rw [hone]
    rfl
  | choice numOptions ext =>
    refine Iff.trans ?_ ((integerOf_integerBits valid old).trans ?_)
    · rw [valueOf, bits, hmarker]
      exact Iff.rfl
    · rw [hone]
      rfl
  | sequence N ext =>
    refine iff_of_true ?_ fits
    rw [valueOf, bits, hmarker]
    exact hmask old value fits
  | sequenceOf nMax nMin => exact integerOf_integerBits valid old
  | null => exact iff_of_true rfl trivial

end Format

/-! ## Sequences of fields -/

namespace Field

def Valid (f : Field) : Prop := f.format.Valid f.value

def Recovered (f : Field) : Prop := f.format.Recovered f.value f.old

def result (f : Field) : (f : Format) × f.Value := ⟨f.format, f.value⟩

end Field

def RoundTrip (fields : List Field) : Prop :=
  ∃ bytes, encode fields = .ok bytes ∧
    ∃ h, decode fields (Asn1Header.initial, bytes) = .ok (fields.map Field.result, h, [])

def fieldsBits (fields : List Field) : List Bool := fields.flatMap fun f => f.format.bits f.value

def fieldsWidth (fields : List Field) : ℕ := (fields.map fun f => f.format.width).sum

def valuesOf : List Field → List Bool → List ((f : Format) × f.Value)
  | [], _ => []
  | f :: fields, bs =>
    ⟨f.format, f.format.valueOf f.old (bs.take f.format.width)⟩ ::
      valuesOf fields (bs.drop f.format.width)

variable {fields : List Field}

theorem encode_spec (valid : ∀ f ∈ fields, f.Valid) : Ensures (encode fields)
      (fun bytes => ∃ k < 8, stream bytes = fieldsBits fields ++ replicate k false)
      fun _ => False := by
  have hfields : ∀ (fields : List Field) (h : Asn1Header), h.Clean → (∀ f ∈ fields, f.Valid) →
      Ensures (fields.foldlM (fun h f => f.format.serialize f.value h) h)
        (fun h' => h'.written = h.written ++ fieldsBits fields ∧ h'.Clean) fun _ => False := by
    intro fields
    induction fields with
    | nil =>
      intro h clean _
      exact ensures_pure.mpr ⟨(append_nil _).symm, clean⟩
    | cons f fields ih =>
      intro h clean valid
      rw [foldlM_cons]
      refine (serialize_spec clean (valid f mem_cons_self)).bind fun h' hh => ?_
      refine (ih h' hh.2 fun g hg => valid g (mem_cons_of_mem f hg)).weaken fun h'' hh' => ?_
      rw [hh'.1, hh.1, append_assoc]
      exact ⟨rfl, hh'.2⟩
  refine (hfields fields initial initial_clean valid).bind fun h hh => ensures_ok.mpr ?_
  have hfinal := finalizeSerialization_spec hh.2
  rwa [hh.1, written_initial, nil_append] at hfinal

theorem decode_takes (valid : ∀ f ∈ fields, f.Valid) (r : Reading) :
    Takes r (fieldsWidth fields) (decode fields r) (valuesOf fields) := by
  induction fields generalizing r with
  | nil => exact takes_ok r []
  | cons f fields ih =>
    have hboth : Takes r (f.format.width + fieldsWidth fields)
        (f.format.deserialize f.old r >>= fun p => decode fields p.2 >>= fun q =>
          .ok (⟨f.format, p.1⟩ :: q.1, q.2))
        fun bs => ⟨f.format, f.format.valueOf f.old (bs.take f.format.width)⟩ ::
          valuesOf fields (bs.drop f.format.width) :=
      (deserialize_takes (valid f mem_cons_self) f.old r).bind
        (g := fun value bs => ⟨f.format, value⟩ :: valuesOf fields bs) fun value r' =>
          (ih (fun g hg => valid g (mem_cons_of_mem f hg)) r').map
    exact hboth

theorem length_fieldsBits_cons (f : Field) (fields : List Field) :
    (fieldsBits (f :: fields)).length =
    (f.format.bits f.value).length + (fieldsBits fields).length :=
  length_append

theorem fieldsWidth_cons (f : Field) (fields : List Field) :
    fieldsWidth (f :: fields) = f.format.width + fieldsWidth fields := rfl

theorem length_fieldsBits_le (fields : List Field) :
    (fieldsBits fields).length ≤ fieldsWidth fields := by
  induction fields with
  | nil => exact Nat.le_refl 0
  | cons f fields ih =>
    rw [length_fieldsBits_cons, fieldsWidth_cons]
    by_cases hfits : f.format.Fits
    · have hlen := Format.length_bits hfits f.value
      omega
    · have hlen := Format.length_bits_of_not_fits hfits f.value
      omega

theorem fits_of_width (lt : fieldsWidth fields < (fieldsBits fields).length + 256) :
    ∀ f ∈ fields, f.format.Fits := by
  induction fields with
  | nil => exact fun f hf => absurd hf not_mem_nil
  | cons f fields ih =>
    rw [length_fieldsBits_cons, fieldsWidth_cons] at lt
    have htail := length_fieldsBits_le fields
    by_cases hfits : f.format.Fits
    · have hlen := Format.length_bits hfits f.value
      exact forall_mem_cons.mpr ⟨hfits, ih (by omega)⟩
    · have hlen := Format.length_bits_of_not_fits hfits f.value
      omega

theorem length_fieldsBits (fits : ∀ f ∈ fields, f.format.Fits) :
    (fieldsBits fields).length = fieldsWidth fields := by
  induction fields with
  | nil => rfl
  | cons f fields ih =>
    rw [length_fieldsBits_cons, fieldsWidth_cons, Format.length_bits (fits f mem_cons_self),
      ih fun g hg => fits g (mem_cons_of_mem f hg)]

theorem valuesOf_fieldsBits (valid : ∀ f ∈ fields, f.Valid) (fits : ∀ f ∈ fields, f.format.Fits) :
    valuesOf fields (fieldsBits fields) = fields.map Field.result ↔ ∀ f ∈ fields, f.Recovered := by
  induction fields with
  | nil => exact iff_of_true rfl fun f hf => absurd hf not_mem_nil
  | cons f fields ih =>
    have htail := ih (fun g hg => valid g (mem_cons_of_mem f hg))
      fun g hg => fits g (mem_cons_of_mem f hg)
    have hlen := Format.length_bits (fits f mem_cons_self) f.value
    have hvalue := Format.valueOf_bits (valid f mem_cons_self) (fits f mem_cons_self) f.old
    have hbits : fieldsBits (f :: fields) = f.format.bits f.value ++ fieldsBits fields := rfl
    rw [hbits, valuesOf, take_left' hlen, drop_left' hlen, map_cons, List.cons.injEq,
      htail, forall_mem_cons]
    refine and_congr_left fun _ => ?_
    rw [Field.result, Sigma.mk.injEq, heq_eq_eq, hvalue]
    exact and_iff_right rfl

theorem bIterator_eq_nil {r : Reading} (few : (unread r).length < 8) : r.2 = [] := by
  rw [unread, length_append, length_stream] at few
  exact eq_nil_of_length_eq_zero (by omega)

/-- Fields are read back if and only if the bitsets have fewer than 256 bits and the variables
that are read for intervals of one value contain it already. -/
theorem asn1_roundTrip_iff (fields : List Field) (valid : ∀ f ∈ fields, f.Valid) :
    RoundTrip fields ↔ ∀ f ∈ fields, f.Recovered := by
  obtain ⟨bytes, hencode, k, hk, hstream⟩ := (encode_spec valid).exists_ok
  have hunread : unread (Asn1Header.initial, bytes) = fieldsBits fields ++ replicate k false :=
    hstream
  have htakes := decode_takes valid (Asn1Header.initial, bytes)
  rw [Takes, hunread, length_append, length_replicate] at htakes
  constructor
  · rintro ⟨bytes', hencode', h, hdecode⟩
    obtain rfl : bytes' = bytes := Except.ok.inj (hencode'.symm.trans hencode)
    obtain ⟨hle, hvalues, -⟩ := htakes.of_ok hdecode
    have hfits : ∀ f ∈ fields, f.format.Fits := fits_of_width (by omega)
    rw [← length_fieldsBits hfits, take_left] at hvalues
    exact (valuesOf_fieldsBits valid hfits).mp hvalues.symm
  · intro hrecovered
    have hfits : ∀ f ∈ fields, f.format.Fits := fun f hf => (hrecovered f hf).fits
    rw [← length_fieldsBits hfits, take_left, drop_left] at htakes
    obtain ⟨⟨values, h, rest⟩, hdecode, -, hvalues, hrest⟩ :=
      (htakes.mono (fun _ hr => hr) fun _ he => by omega).exists_ok
    have hnil : rest = [] := bIterator_eq_nil (r := (h, rest)) (by rw [hrest]; simpa using hk)
    have hresult := (valuesOf_fieldsBits valid hfits).mpr hrecovered
    refine ⟨bytes, hencode, h, hdecode.trans ?_⟩
    rw [hnil, ← hresult, ← hvalues]

/-- An integer, a bitset that starts inside an octet, a choice with an extension marker and an
enumeration of one element, the variable of which is right. -/
def mixedFields : List Field :=
  [⟨.integer 3 9, (5 : ℤ), (0 : ℤ)⟩, ⟨.bitset 10, (0x2ab : BitVec 10), (0 : BitVec 10)⟩,
    ⟨.choice 5 true, (4 : ℤ), (0 : ℤ)⟩, ⟨.enumeration 1, (0 : ℤ), (0 : ℤ)⟩]

theorem asn1_roundTrip_mixed : (∀ f ∈ mixedFields, f.Valid) ∧
    (RoundTrip mixedFields ↔ ∀ f ∈ mixedFields, f.Recovered) := by
  have hvalid : ∀ f ∈ mixedFields, f.Valid := by
    simp [mixedFields, Field.Valid, Format.Valid, InInterval]
  exact ⟨hvalid, asn1_roundTrip_iff mixedFields hvalid⟩

def firstInteger : Except Fault (List ((f : Format) × f.Value) × Reading) → ℤ
  | .ok (⟨.integer _ _, n⟩ :: _, _) => n
  | _ => 0

/-- The only integer of its interval is not read: the variable contains what it contained. -/
theorem asn1_oneValue_lost :
    ¬∀ fields : List Field, (∀ f ∈ fields, f.Valid) → RoundTrip fields := by
  intro h
  have hvalid : ∀ f ∈ [(⟨.integer 5 5, (5 : ℤ), (0 : ℤ)⟩ : Field)], f.Valid := by
    simp [Field.Valid, Format.Valid, InInterval]
  obtain ⟨bytes, hencode, rest, hdecode⟩ := h _ hvalid
  obtain rfl : [] = bytes := Except.ok.inj hencode
  have hread : (0 : ℤ) = 5 := congrArg firstInteger hdecode
  exact absurd hread (by decide)

end Egsr.Lte
