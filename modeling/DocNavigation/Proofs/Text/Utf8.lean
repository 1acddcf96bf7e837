import DocNavigation.Text.Utf8
import Mathlib.Data.List.Basic

/-!
Decoding what was encoded. The bytes of a text are read back as that text, at whatever byte a chunk
ends: what a chunk leaves over is the front of one character.
-/

namespace DocNavigation.Text.Utf8

theorem isContinuation_iff (b : UInt8) :
    isContinuation b = true ↔ 0x80 ≤ b.toNat ∧ b.toNat ≤ 0xbf := by
  simp [isContinuation, UInt8.le_iff_toNat_le]

theorem secondInRange_iff (lead b : UInt8) : secondInRange lead b = true ↔
    (0x80 ≤ b.toNat ∧ b.toNat ≤ 0xbf) ∧ (lead.toNat = 0xe0 → 0xa0 ≤ b.toNat) ∧
      (lead.toNat = 0xed → b.toNat ≤ 0x9f) ∧ (lead.toNat = 0xf0 → 0x90 ≤ b.toNat) ∧
      (lead.toNat = 0xf4 → b.toNat ≤ 0x8f) := by
  have hlead : ∀ n : UInt8, lead = n ↔ lead.toNat = n.toNat := fun n => UInt8.toNat_inj.symm
  simp only [secondInRange, hlead, UInt8.reduceToNat]
  split_ifs <;> simp [isContinuation_iff, UInt8.le_iff_toNat_le] <;> omega

/-- A lead byte and the bytes that belong to it: together they make one character, and cut off they
are unfinished. -/
structure Opens (lead : UInt8) (more : List UInt8) (c : Char) : Prop where
  whole : ∀ rest, step lead (more ++ rest) = .char c (more.length + 1)
  cut : ∀ n < more.length, step lead (more.take n) = .bad (n + 1) .unexpectedEnd

section
variable (v : Nat) (a b c d : UInt8)

theorem opens_one (hv : v < 0x80) (ha : a.toNat = v) : Opens a [] (Char.ofNat v) := by
  refine ⟨?_, nofun⟩
  intro rest
  simp [step, UInt8.lt_iff_toNat_lt, ha, hv]

theorem opens_two (hv : 0x80 ≤ v ∧ v ≤ 0x7ff) (ha : a.toNat = v / 64 % 32 + 0xc0)
    (hb : b.toNat = v % 64 + 0x80) : Opens a [b] (Char.ofNat v) := by
  have hlead : ¬ a.toNat < 0x80 ∧ ¬ (a.toNat < 0xc2 ∨ 0xf4 < a.toNat) ∧ a.toNat < 0xe0 := by omega
  have hsecond : secondInRange a b = true := by rw [secondInRange_iff]; omega
  have hcode : a.toNat % 32 * 64 + low6 b = v := by rw [low6]; omega
  refine ⟨?_, ?_⟩
  · intro rest
    simp [step, UInt8.lt_iff_toNat_lt, hlead, hsecond, hcode]
  · intro n hn
    obtain rfl : n = 0 := by simpa using hn
    simp [step, UInt8.lt_iff_toNat_lt, hlead]

theorem opens_three (hv : 0x800 ≤ v ∧ v ≤ 0xffff) (hnone : v < 0xd800 ∨ 0xdfff < v)
    (ha : a.toNat = v / 4096 % 16 + 0xe0) (hb : b.toNat = v / 64 % 64 + 0x80)
    (hc : c.toNat = v % 64 + 0x80) : Opens a [b, c] (Char.ofNat v) := by
  have hlead : ¬ a.toNat < 0x80 ∧ ¬ (a.toNat < 0xc2 ∨ 0xf4 < a.toNat) ∧ ¬ a.toNat < 0xe0 ∧
      a.toNat < 0xf0 := by omega
  have hsecond : secondInRange a b = true := by rw [secondInRange_iff]; omega
  have hthird : isContinuation c = true := by rw [isContinuation_iff]; omega
  have hcode : a.toNat % 16 * 4096 + low6 b * 64 + low6 c = v := by
    rw [low6, low6]
    omega
  refine ⟨?_, ?_⟩
  · intro rest
    simp [step, UInt8.lt_iff_toNat_lt, hlead, hsecond, hthird, hcode]
  · intro n hn
    have hn : n = 0 ∨ n = 1 := by simp at hn; omega
    rcases hn with rfl | rfl
    · simp [step, UInt8.lt_iff_toNat_lt, hlead]
    · simp [step, UInt8.lt_iff_toNat_lt, hlead, hsecond]

theorem opens_four (hv : 0x10000 ≤ v ∧ v < 0x110000) (ha : a.toNat = v / 262144 % 8 + 0xf0)
    (hb : b.toNat = v / 4096 % 64 + 0x80) (hc : c.toNat = v / 64 % 64 + 0x80)
    (hd : d.toNat = v % 64 + 0x80) : Opens a [b, c, d] (Char.ofNat v) := by
  have hlead : ¬ a.toNat < 0x80 ∧ ¬ (a.toNat < 0xc2 ∨ 0xf4 < a.toNat) ∧ ¬ a.toNat < 0xe0 ∧
      ¬ a.toNat < 0xf0 := by omega
  have hsecond : secondInRange a b = true := by rw [secondInRange_iff]; omega
  have hthird : isContinuation c = true := by rw [isContinuation_iff]; omega
  have hfourth : isContinuation d = true := by rw [isContinuation_iff]; omega
  have hcode : a.toNat % 8 * 262144 + low6 b * 4096 + low6 c * 64 + low6 d = v := by
    rw [low6, low6, low6]
    omega
  refine ⟨?_, ?_⟩
  · intro rest
    simp [step, UInt8.lt_iff_toNat_lt, hlead, hsecond, hthird, hfourth, hcode]
  · intro n hn
    have hn : n = 0 ∨ n = 1 ∨ n = 2 := by simp at hn; omega
    rcases hn with rfl | rfl | rfl
    · simp [step, UInt8.lt_iff_toNat_lt, hlead]
    · simp [step, UInt8.lt_iff_toNat_lt, hlead, hsecond]
    · simp [step, UInt8.lt_iff_toNat_lt, hlead, hsecond, hthird]

end

theorem opens_encoded (c : Char) :
    ∃ lead more, String.utf8EncodeChar c = lead :: more ∧ Opens lead more c := by
  have hvalid : c.val.toNat < 0xd800 ∨ 0xdfff < c.val.toNat ∧ c.val.toNat < 0x110000 := c.valid
  have hchar : Char.ofNat c.val.toNat = c := Char.ofNat_toNat c
  have hbyte : ∀ n < 256, (UInt8.ofNat n).toNat = n := by
    intro n hn
    rw [UInt8.toNat_ofNat', Nat.mod_eq_of_lt hn]
  rw [String.utf8EncodeChar]
  generalize c.val.toNat = v at hvalid hchar
  subst hchar
  split
  · exact ⟨_, _, rfl, opens_one v _ (by omega) (hbyte _ (by omega))⟩
  split
  · exact ⟨_, _, rfl, opens_two v _ _ (by omega) (hbyte _ (by omega)) (hbyte _ (by omega))⟩
  split
  · exact ⟨_, _, rfl, opens_three v _ _ _ (by omega) (by omega) (hbyte _ (by omega))
      (hbyte _ (by omega)) (hbyte _ (by omega))⟩
  · exact ⟨_, _, rfl, opens_four v _ _ _ _ (by omega) (hbyte _ (by omega)) (hbyte _ (by omega))
      (hbyte _ (by omega)) (hbyte _ (by omega))⟩

theorem scan_skip (used rest : List UInt8) (position : Nat) (acc : List Char) :
    scan (used ++ rest) used.length position acc = scan rest 0 (position + used.length) acc := by
  induction used generalizing position with
  | nil => rfl
  | cons b used ih =>
    have hlength : position + 1 + used.length = position + (b :: used).length := by
      rw [List.length_cons]
      omega
    rw [List.cons_append, List.length_cons, scan, ih, hlength]
    rfl

/-- The bytes of a text. -/
def bytesOf (cs : List Char) : List UInt8 :=
  cs.flatMap String.utf8EncodeChar

theorem scan_bytesOf (cs : List Char) (rest : List UInt8) (position : Nat) (acc : List Char) :
    scan (bytesOf cs ++ rest) 0 position acc =
      scan rest 0 (position + (bytesOf cs).length) (cs.reverse ++ acc) := by
  induction cs generalizing position acc with
  | nil => rfl
  | cons c cs ih =>
    obtain ⟨lead, more, hbytes, hopens⟩ := opens_encoded c
    have hcons : bytesOf (c :: cs) = lead :: (more ++ bytesOf cs) := by
      rw [bytesOf, List.flatMap_cons, hbytes]
      rfl
    have hlength : position + 1 + more.length + (bytesOf cs).length =
        position + (bytesOf (c :: cs)).length := by
      rw [hcons, List.length_cons, List.length_append]
      omega
    have hstep := hopens.whole (bytesOf cs ++ rest)
    rw [hcons, List.cons_append, List.append_assoc, scan, hstep]
    dsimp only
    rw [Nat.add_sub_cancel, scan_skip, ih, ← hcons, hlength]
    simp

/-- What a chunk leaves for the next one: the front of a character that is not finished. -/
def Unfinished (front : List UInt8) (cs : List Char) : Prop :=
  ∀ b ∈ front.head?, ∃ c rest, cs = c :: rest ∧ front.length < (String.utf8EncodeChar c).length

theorem scan_unfinished (b : UInt8) (front more : List UInt8) (cs : List Char) (position : Nat)
    (acc : List Char) (h : (b :: front) ++ more = bytesOf cs)
    (hfront : Unfinished (b :: front) cs) : scan (b :: front) 0 position acc =
      (acc, some ⟨b, position, (b :: front).length, .unexpectedEnd⟩) := by
  obtain ⟨c, rest, rfl, hlength⟩ := hfront b rfl
  obtain ⟨lead, bytes, hbytes, hopens⟩ := opens_encoded c
  rw [bytesOf, List.flatMap_cons, hbytes, List.cons_append, List.cons_append, List.cons.injEq] at h
  rw [hbytes, List.length_cons, List.length_cons] at hlength
  have hshort : front.length < bytes.length := by omega
  have htake : front = bytes.take front.length := by
    have hleft := congrArg (List.take front.length) h.2
    rwa [List.take_left, List.take_append_of_le_length (Nat.le_of_lt hshort)] at hleft
  have hstep : step b front = .bad (front.length + 1) .unexpectedEnd := by
    rw [h.1, htake, List.length_take, Nat.min_eq_left (Nat.le_of_lt hshort)]
    exact hopens.cut _ hshort
  rw [scan, hstep]
  rfl

/-- The bytes up to some place are those of whole characters and the front of one more. -/
theorem exists_unfinished (cs : List Char) (bytes more : List UInt8)
    (h : bytes ++ more = bytesOf cs) : ∃ done rest front, cs = done ++ rest ∧
      bytes = bytesOf done ++ front ∧ front ++ more = bytesOf rest ∧ Unfinished front rest := by
  induction cs generalizing bytes with
  | nil =>
    have hbytes : bytes = [] := (List.append_eq_nil_iff.mp h).1
    subst hbytes
    exact ⟨[], [], [], rfl, rfl, h, nofun⟩
  | cons c cs ih =>
    rw [bytesOf, List.flatMap_cons] at h
    by_cases hlength : bytes.length < (String.utf8EncodeChar c).length
    · exact ⟨[], c :: cs, bytes, rfl, rfl, h, fun _ _ => ⟨c, cs, rfl, hlength⟩⟩
    · have hlong : (String.utf8EncodeChar c).length ≤ bytes.length := Nat.le_of_not_lt hlength
      obtain ⟨after, rfl⟩ : String.utf8EncodeChar c <+: bytes :=
        List.prefix_of_prefix_length_le (List.prefix_append _ _) (h ▸ List.prefix_append _ _) hlong
      rw [List.append_assoc] at h
      obtain ⟨done, rest, front, rfl, rfl, hrest, hfront⟩ := ih after (List.append_cancel_left h)
      exact ⟨c :: done, rest, front, rfl, (List.append_assoc ..).symm, hrest, hfront⟩

/-- Reading in chunks gives the whole text, wherever the chunks cut it. -/
theorem decodeChunks_bytesOf (size : Nat) (chunks : List (List UInt8)) (carry : List UInt8)
    (cs acc : List Char) (h : carry ++ chunks.flatten = bytesOf cs) (hcarry : Unfinished carry cs) :
    decodeChunks size carry chunks acc = (acc.reverse ++ cs, none) := by
  induction chunks generalizing carry cs acc with
  | nil =>
    rw [List.flatten_nil, List.append_nil] at h
    cases carry with
    | nil =>
      cases cs with
      | nil => simp [decodeChunks]
      | cons c cs =>
        obtain ⟨lead, more, hbytes, -⟩ := opens_encoded c
        rw [bytesOf, List.flatMap_cons, hbytes] at h
        cases h
    | cons b carry =>
      -- all bytes are there, so the last character is not cut off
      obtain ⟨c, rest, rfl, hlength⟩ := hcarry b rfl
      rw [h, bytesOf, List.flatMap_cons, List.length_append] at hlength
      omega
  | cons chunk chunks ih =>
    rw [List.flatten_cons, ← List.append_assoc] at h
    -- what the last chunk left over is read with this one, and a new front may be left
    obtain ⟨done, rest, front, rfl, hbytes, hrest, hfront⟩ := exists_unfinished cs _ _ h
    rw [decodeChunks, hbytes, scan_bytesOf]
    cases front with
    | nil =>
      have hnext := ih [] rest (done.reverse ++ acc) hrest nofun
      simp [scan, hnext]
    | cons b front =>
      have hnext := ih (b :: front) rest (done.reverse ++ acc) hrest hfront
      rw [scan_unfinished b front _ rest _ _ hrest hfront]
      simp [hnext]

theorem flatten_chunksOf (size fuel : Nat) (bytes : List UInt8) (hsize : 0 < size)
    (hfuel : bytes.length ≤ fuel) : (chunksOf size fuel bytes).flatten = bytes := by
  induction fuel generalizing bytes with
  | zero =>
    obtain rfl := List.length_eq_zero_iff.mp (Nat.le_zero.mp hfuel)
    rfl
  | succ fuel ih =>
    cases bytes with
    | nil => rfl
    | cons b bytes =>
      have hrest : ((b :: bytes).drop size).length ≤ fuel := by
        rw [List.length_drop]
        rw [List.length_cons] at hfuel ⊢
        omega
      change ((b :: bytes).take size :: chunksOf size fuel ((b :: bytes).drop size)).flatten = _
      rw [List.flatten_cons, ih _ hrest, List.take_append_drop]

theorem toList_eq (bytes : ByteArray) : bytes.toList = bytes.data.toList := by
  have hloop : ∀ i acc,
      ByteArray.toList.loop bytes i acc = acc.reverse ++ bytes.data.toList.drop i := by
    intro i acc
    fun_induction ByteArray.toList.loop bytes i acc with
    | case1 i acc hi ih =>
      have hi' : i < bytes.data.toList.length := hi
      rw [ih, List.drop_eq_getElem_cons hi']
      simp [ByteArray.get!, hi]
    | case2 i acc hi =>
      rw [List.drop_eq_nil_of_le (Nat.le_of_not_lt hi), List.append_nil]
  exact hloop 0 []

theorem toList_toUTF8 (s : String) : s.toUTF8.toList = bytesOf s.toList := by
  rw [toList_eq, String.toUTF8_eq_toByteArray, ← String.utf8Encode_toList]
  exact List.toList_data_toByteArray

/-- A reader of an encoded text meets no fault. -/
theorem decodeStream_toUTF8 (s : String) : decodeStream s.toUTF8 = (s.toList, none) := by
  have hsize : s.toUTF8.toList.length ≤ s.toUTF8.size := by
    rw [toList_eq]
    exact Nat.le_refl _
  have hall := flatten_chunksOf chunkSize _ _ (by decide) hsize
  rw [decodeStream, decodeChunks_bytesOf _ _ [] s.toList [] (hall.trans (toList_toUTF8 s)) nofun]
  rfl

theorem decode_toUTF8 (s : String) : decode s.toUTF8 = .ok s := by
  have hvalid : s.toUTF8.IsValidUTF8 := s.isValidUTF8
  rw [decode, String.fromUTF8?, dif_pos hvalid]
  rfl

end DocNavigation.Text.Utf8
