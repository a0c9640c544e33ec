/-
  The two readings of a sync pair's aircraft agree: the text of the frame sliced (traffic.rs,
  adsb_icao) and its bytes parsed (mb-modes, decode.rs).

  A text that is decoded is ASCII, so its slices are its characters (`byteSlice_eq`), and each pair
  of them is a byte of the frame. Both readings then are the digits of bytes 1 to 3.
-/
import Mathlib.Tactic.IntervalCases
import Mlatd.Modes.Frames
import Mlatd.Traffic

namespace Mlatd

variable {F : Type} [F64 F]

/-! ## ASCII text -/

section
variable {cs : List Char} (h : ∀ c ∈ cs, c.utf8Size = 1)
include h

theorem utf8ByteSize_ofList : (String.ofList cs).utf8ByteSize = cs.length := by
  induction cs with
  | nil => rfl
  | cons c cs ih =>
    have hsplit : String.ofList (c :: cs) = String.singleton c ++ String.ofList cs :=
      @String.ofList_append [c] cs
    rw [hsplit, String.utf8ByteSize_append, String.utf8ByteSize_singleton,
      ih fun c' hc => h c' (List.mem_cons_of_mem c hc), h c List.mem_cons_self, List.length_cons,
      Nat.add_comm]

theorem dropBytes_eq {n : ℕ} (hn : n ≤ cs.length) : dropBytes n cs = some (cs.drop n) := by
  induction n generalizing cs with
  | zero => rw [dropBytes, List.drop_zero]
  | succ n ih =>
    cases cs with
    | nil => cases hn
    | cons c cs =>
      have hc := h c List.mem_cons_self
      rw [dropBytes, hc, if_pos (Nat.succ_le_succ (Nat.zero_le n)), Nat.add_sub_cancel,
        List.drop_succ_cons]
      exact ih (fun c' hc' => h c' (List.mem_cons_of_mem c hc')) (Nat.le_of_succ_le_succ hn)

theorem takeBytes_eq {n : ℕ} (hn : n ≤ cs.length) : takeBytes n cs = some (cs.take n) := by
  induction n generalizing cs with
  | zero => rw [takeBytes, List.take_zero]
  | succ n ih =>
    cases cs with
    | nil => cases hn
    | cons c cs =>
      have hc := h c List.mem_cons_self
      rw [takeBytes, hc, if_pos (Nat.succ_le_succ (Nat.zero_le n)), Nat.add_sub_cancel,
        ih (fun c' hc' => h c' (List.mem_cons_of_mem c hc')) (Nat.le_of_succ_le_succ hn),
        Option.map_some, List.take_succ_cons]

/-- A byte slice of ASCII text is the characters there. -/
theorem byteSlice_eq {a b : ℕ} (hab : a ≤ b) (hb : b ≤ cs.length) :
    byteSlice (String.ofList cs) a b = some ((cs.drop a).take (b - a)) := by
  rw [byteSlice, String.toList_ofList, dropBytes_eq h (by omega), Option.bind_some]
  refine takeBytes_eq (fun c hc => h c (List.mem_of_mem_drop hc)) ?_
  rw [List.length_drop]
  omega

end

/-! ## Digits -/

/-- A digit in lower case is the digit that is written. -/
theorem asciiLower_digit {c : Char} {x : UInt8} (h : Hex.digit c = some x) :
    asciiLower c = hexDigit x.toNat := by
  have hc : asciiLower c = asciiLower (Char.ofNat c.toNat) := by rw [Char.ofNat_toNat]
  rw [hc]
  rcases Hex.digit_cases h with ⟨h1, h2, rfl⟩ | ⟨h1, h2, rfl⟩ | ⟨h1, h2, rfl⟩
  · generalize c.toNat = n at *
    interval_cases n <;> rfl
  · generalize c.toNat = n at *
    interval_cases n <;> rfl
  · generalize c.toNat = n at *
    interval_cases n <;> rfl

theorem hexDigit_injective {m n : ℕ} (hm : m < 16) (hn : n < 16) (h : hexDigit m = hexDigit n) :
    m = n := by
  interval_cases m <;> interval_cases n <;> first | rfl | exact absurd h (by decide)

/-- The text of an address given by its six digits. -/
theorem Icao.toHex_of_digits {i : Icao} {a b c d e f : ℕ} (ha : a < 16) (hb : b < 16) (hc : c < 16)
    (hd : d < 16) (he : e < 16) (hf : f < 16)
    (h : i.val.toNat = ((((a * 16 + b) * 16 + c) * 16 + d) * 16 + e) * 16 + f) :
    i.toHex = String.ofList
      [hexDigit a, hexDigit b, hexDigit c, hexDigit d, hexDigit e, hexDigit f] := by
  have h5 : i.val.toNat % 2 ^ 24 / 16 ^ 5 % 16 = a := by omega
  have h4 : i.val.toNat % 2 ^ 24 / 16 ^ 4 % 16 = b := by omega
  have h3 : i.val.toNat % 2 ^ 24 / 16 ^ 3 % 16 = c := by omega
  have h2 : i.val.toNat % 2 ^ 24 / 16 ^ 2 % 16 = d := by omega
  have h1 : i.val.toNat % 2 ^ 24 / 16 ^ 1 % 16 = e := by omega
  have h0 : i.val.toNat % 2 ^ 24 / 16 ^ 0 % 16 = f := by omega
  simp only [Icao.toHex, List.map_cons, List.map_nil, h5, h4, h3, h2, h1, h0]

/-- Two addresses of 24 bits are written alike only when they are the same. -/
theorem Icao.toHex_injective {i j : Icao} (hi : i.val.toNat < 2 ^ 24) (hj : j.val.toNat < 2 ^ 24)
    (h : i.toHex = j.toHex) : i = j := by
  have hlist := String.ofList_injective h
  simp only [List.map_cons, List.map_nil, List.cons.injEq, and_true] at hlist
  have hdigit (k : ℕ) (hk : hexDigit (i.val.toNat % 2 ^ 24 / 16 ^ k % 16) =
      hexDigit (j.val.toNat % 2 ^ 24 / 16 ^ k % 16)) :
      i.val.toNat % 2 ^ 24 / 16 ^ k % 16 = j.val.toNat % 2 ^ 24 / 16 ^ k % 16 :=
    hexDigit_injective (Nat.mod_lt _ (by decide)) (Nat.mod_lt _ (by decide)) hk
  have h5 := hdigit 5 hlist.1
  have h4 := hdigit 4 hlist.2.1
  have h3 := hdigit 3 hlist.2.2.1
  have h2 := hdigit 2 hlist.2.2.2.1
  have h1 := hdigit 1 hlist.2.2.2.2.1
  have h0 := hdigit 0 hlist.2.2.2.2.2
  have hval : i.val = j.val := UInt32.toNat_inj.1 (by omega)
  cases i
  cases j
  exact congrArg Icao.mk hval

/-! ## The two readings -/

/-- The address of a frame is its bytes 1 to 3. -/
theorem icao_of_parse {f : List UInt8} {d : Df17Airborne} (h : parseDf17Airborne f = some d) :
    f.length = 14 ∧ byteAt f 0 >>> 3 = 17 ∧ d.icao = ⟨be24 f 1⟩ := by
  unfold parseDf17Airborne at h
  split at h
  · cases h
  next hok =>
  obtain ⟨hlen, hok⟩ := not_or.1 hok
  obtain ⟨hdf, -⟩ := not_or.1 hok
  simp only at h
  split at h
  · cases h
  · cases h
    exact ⟨not_not.1 hlen, not_not.1 hdf, rfl⟩

theorem be24_lt (f : List UInt8) (i : ℕ) : (be24 f i).toNat < 2 ^ 24 := by
  have h := Bits.beVal_lt [byteAt f i, byteAt f (i + 1), byteAt f (i + 2)]
  rw [toNat_be24]
  exact h.trans_eq (by norm_num)

theorem hexU8_digits {a b : Char} {x y : UInt8} (ha : Hex.digit a = some x)
    (hb : Hex.digit b = some y) : hexU8 [a, b] = some (16 * x.toNat + y.toNat) := by
  have hplus : a ≠ '+' := by
    rintro rfl
    cases ha
  rw [hexU8]
  · rw [ha, hb]
  · exact fun h => hplus h

/-- The slices of a frame's text read as its bytes do. -/
theorem adsbIcao_of_reads {em : String} {f : List UInt8} (hr : Hex.Reads em.toList f)
    {d : Df17Airborne} (hd : parseDf17Airborne f = some d) : adsbIcao em = some d.icao.toHex := by
  obtain ⟨hlen, hdf, hicao⟩ := icao_of_parse hd
  have hascii : ∀ c ∈ em.toList, c.utf8Size = 1 := by
    intro c hc
    obtain ⟨x, hx⟩ := hr.digits c hc
    exact Hex.utf8Size_digit hx
  have hcs : em.toList.length = 28 := by rw [hr.length_eq, hlen]
  have hsize : em.utf8ByteSize = 28 := by
    have h := utf8ByteSize_ofList hascii
    rwa [String.ofList_toList, hcs] at h
  have h02 := byteSlice_eq hascii (a := 0) (b := 2) (by decide) (by omega)
  have h28 := byteSlice_eq hascii (a := 2) (b := 8) (by decide) (by omega)
  rw [String.ofList_toList] at h02 h28
  obtain ⟨a0, c0, x0, y0, e0, ha0, hc0, hb0⟩ := hr.byte (i := 0) (by omega)
  obtain ⟨a1, c1, x1, y1, e1, ha1, hc1, hb1⟩ := hr.byte (i := 1) (by omega)
  obtain ⟨a2, c2, x2, y2, e2, ha2, hc2, hb2⟩ := hr.byte (i := 2) (by omega)
  obtain ⟨a3, c3, x3, y3, e3, ha3, hc3, hb3⟩ := hr.byte (i := 3) (by omega)
  have hfirst : (em.toList.drop 0).take (2 - 0) = [a0, c0] := by rw [e0]; rfl
  have haddr : (em.toList.drop 2).take (8 - 2) = [a1, c1, a2, c2, a3, c3] := by
    rw [e1, e2, e3]; rfl
  have hkind : (16 * x0.toNat + y0.toNat) / 8 = 17 := by
    have h17 : (byteAt f 0 >>> 3).toNat = 17 := by rw [hdf]; rfl
    rw [UInt8.toNat_shiftRight, Nat.shiftRight_eq_div_pow, byteAt, hb0] at h17
    exact h17
  have hval : (be24 f 1).toNat = (16 * x1.toNat + y1.toNat) * 65536 +
      (16 * x2.toNat + y2.toNat) * 256 + (16 * x3.toNat + y3.toNat) := by
    rw [toNat_be24]
    simp only [Bits.beVal, List.foldl_cons, List.foldl_nil, byteAt, hb1, hb2, hb3]
    omega
  have hdigits := Icao.toHex_of_digits (i := ⟨be24 f 1⟩) (Hex.toNat_digit ha1)
    (Hex.toNat_digit hc1) (Hex.toNat_digit ha2) (Hex.toNat_digit hc2) (Hex.toNat_digit ha3)
    (Hex.toNat_digit hc3) (by rw [hval]; omega)
  unfold adsbIcao
  rw [if_neg (by rw [hsize]; decide), h02, h28, hfirst, haddr, Option.bind_some,
    hexU8_digits ha0 hc0]
  simp only [hkind]
  rw [if_neg (by decide), hicao, hdigits, Option.map_some]
  simp only [List.map_cons, List.map_nil, asciiLower_digit ha1, asciiLower_digit hc1,
    asciiLower_digit ha2, asciiLower_digit hc2, asciiLower_digit ha3, asciiLower_digit hc3]

/-- **The cap and the shard read the same aircraft.** What `adsb_icao` reads of an accepted frame
    is its aircraft's address, under which the cap counts, stops and forwards the pair; two
    accepted frames are counted as one exactly when they are of one aircraft; and the shard reads
    a pair with that even frame as of that aircraft. -/
theorem adsbIcao_agrees (hexDecode : String → Option (List UInt8))
    (hdec : ∀ s bs, hexDecode s = some bs ↔ Hex.Reads s.toList bs) (em : String) (f : List UInt8)
    (d : Df17Airborne) (hf : hexDecode em = some f) (hd : parseDf17Airborne f = some d) :
    adsbIcao em = some d.icao.toHex ∧
    (∀ em' f' d', hexDecode em' = some f' → parseDf17Airborne f' = some d' →
      (adsbIcao em' = adsbIcao em ↔ d'.icao = d.icao)) ∧
    (∀ (env : Env F) (om : String) (p : Df17Airborne × Df17Airborne), env.hexDecode = hexDecode →
      State.decodeSync env em om = some p → p.1 = d) ∧
    ∀ (t : Traffic F) (rx : RxRef) (q : Option Queue) (now et ot : F) (om : String),
      t.forwardSync rx q now (et, ot, em, om) =
        ((t.onSync d.icao.toHex now).1,
          if (t.onSync d.icao.toHex now).2 then []
          else (q.map fun q => { line := .stopSending d.icao.toHex,
                                 taken := q (.stopSending d.icao.toHex) : Sent }).toList,
          if (t.onSync d.icao.toHex now).2 then some (.sync rx et ot em om now) else none) := by
  have hem : adsbIcao em = some d.icao.toHex := adsbIcao_of_reads ((hdec em f).1 hf) hd
  refine ⟨hem, ?_, ?_, ?_⟩
  · intro em' f' d' hf' hd'
    rw [hem, adsbIcao_of_reads ((hdec em' f').1 hf') hd', Option.some.injEq]
    constructor
    · intro h
      have hlt := be24_lt f 1
      have hlt' := be24_lt f' 1
      rw [(icao_of_parse hd).2.2, (icao_of_parse hd').2.2] at h ⊢
      exact Icao.toHex_injective hlt' hlt h
    · intro h
      rw [h]
  · rintro env om p rfl hp
    unfold State.decodeSync at hp
    rw [hf] at hp
    cases hom : env.hexDecode om with
    | none =>
      rw [hom] at hp
      cases hp
    | some m =>
      simp only [hom, hd] at hp
      cases hpm : parseDf17Airborne m with
      | none =>
        rw [hpm] at hp
        cases hp
      | some do' =>
        simp only [hpm] at hp
        split at hp
        · cases hp
        · cases hp
          rfl
  · intro t rx q now et ot om
    simp only [Traffic.forwardSync, hem]
    cases (t.onSync d.icao.toHex now).2 <;> rfl

/-- A captured frame in upper case. -/
theorem adsbIcao_agrees_upper :
    adsbIcao "8D40621D58C382D690C8AC2863A7" = some "40621d" := by
  have hf : Hex.decode "8D40621D58C382D690C8AC2863A7" = some
      [0x8d, 0x40, 0x62, 0x1d, 0x58, 0xc3, 0x82, 0xd6, 0x90, 0xc8, 0xac, 0x28, 0x63, 0xa7] := by
    decide +kernel
  exact (adsbIcao_agrees (F := ℚ) Hex.decode Hex.decode_iff _ _ ⟨⟨0x40621D⟩, false, 93000, 51372,
    some 38000⟩ hf (by decide +kernel)).1

end Mlatd
