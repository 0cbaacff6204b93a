import Ethwasi.Confidential.Context

/-!
# The framing on every payload

The splitter is evaluated on every byte string and in both builds. `split_cases` lists all it
can do: refuse a short payload, accept an exact encoding, refuse a length that does not fit, or
crash. A crash needs two announced lengths whose sum leaves the machine word; nothing before the
sum bounds them. Outside the crashes the format is exact: the accepted payloads are the
encodings, and each is split into the fields it was built from.
-/

namespace Ethwasi.Confidential

open Ethwasi.Rust

/-- The CIPHER_LEN field of a payload, as a number. -/
def cipherLenField (data : Bytes) : Nat := fromLeBytes ((data.take 40).drop 32)

/-- The AAD_LEN field of a payload, as a number. -/
def aadLenField (data : Bytes) : Nat := fromLeBytes ((data.take 48).drop 40)

/-- The length that the two fields announce, before any reduction to a machine word. -/
def announcedLength (data : Bytes) : Nat := 63 + cipherLenField data + aadLenField data

/-- The rest of the splitter once the header has been read. -/
def splitBody (mode : OverflowMode) (data : Bytes) (peerPublicKey : PublicKey)
    (cipherLen aadLen : Nat) : Outcome String SplitPayload := do
  let expectedDataLength ← usizeAdd mode
    (← usizeAdd mode (← usizeAdd mode 48 cipherLen) aadLen) nonceSize
  Outcome.ensure (data.length = expectedDataLength) "invalid size for ciphertext"
  let cipherEnd ← usizeAdd mode 48 cipherLen
  let cipher ← slice data 48 cipherEnd
  let aadEnd ← usizeAdd mode cipherEnd aadLen
  let aad ← slice data cipherEnd aadEnd
  let nonceEnd ← usizeAdd mode aadEnd nonceSize
  let nonceInner ← FixedBytes.copyFromSlice nonceSize (← slice data aadEnd nonceEnd)
  return ⟨peerPublicKey, cipherLen, aadLen, cipher, aad, Nonce.new nonceInner⟩

theorem keyField_length {data : Bytes} (long : 63 ≤ data.length) :
    (data.take 32).length = 32 := List.length_take_of_le (by omega)

theorem cipherField_length {data : Bytes} (long : 63 ≤ data.length) :
    ((data.take 40).drop 32).length = 8 := by
  rw [List.length_drop, List.length_take_of_le (by omega)]

theorem aadField_length {data : Bytes} (long : 63 ≤ data.length) :
    ((data.take 48).drop 40).length = 8 := by
  rw [List.length_drop, List.length_take_of_le (by omega)]

/-- What is left of a payload after its message and additional data is a nonce. -/
theorem nonceField_length {data : Bytes} {cipherLen aadLen : Nat}
    (exact : data.length = 63 + cipherLen + aadLen) :
    (data.drop (48 + cipherLen + aadLen)).length = nonceSize := by
  rw [List.length_drop, exact, nonceSize]
  omega

theorem cipherLenField_lt {data : Bytes} (long : 63 ≤ data.length) :
    cipherLenField data < 2 ^ 64 := by
  have bound := fromLeBytes_lt ((data.take 40).drop 32)
  rw [cipherField_length long] at bound
  exact bound

theorem aadLenField_lt {data : Bytes} (long : 63 ≤ data.length) :
    aadLenField data < 2 ^ 64 := by
  have bound := fromLeBytes_lt ((data.take 48).drop 40)
  rw [aadField_length long] at bound
  exact bound

theorem split_of_long {mode : OverflowMode} {data : Bytes} (long : 63 ≤ data.length) :
    splitEncryptedPayload mode data =
      splitBody mode data ⟨data.take 32, keyField_length long⟩ (cipherLenField data)
        (aadLenField data) := by
  have keySlice : (slice data 0 32 : Outcome String Bytes) = .ok (data.take 32) := by
    exact slice_of_range (Nat.zero_le 32) (by omega)
  have cipherSlice : (slice data 32 40 : Outcome String Bytes) = .ok ((data.take 40).drop 32) :=
    slice_of_range (by decide) (by omega)
  have aadSlice : (slice data 40 48 : Outcome String Bytes) = .ok ((data.take 48).drop 40) :=
    slice_of_range (by decide) (by omega)
  have cipherConv : usizeTryFrom (fromLeBytes ((data.take 40).drop 32)) =
      .ok (cipherLenField data) := if_pos (cipherLenField_lt long)
  have aadConv : usizeTryFrom (fromLeBytes ((data.take 48).drop 40)) =
      .ok (aadLenField data) := if_pos (aadLenField_lt long)
  have add1 : (usizeAdd mode 32 8 : Outcome String Nat) = .ok 40 := usizeAdd_of_lt (by decide)
  have add2 : (usizeAdd mode 40 8 : Outcome String Nat) = .ok 48 := usizeAdd_of_lt (by decide)
  have guard : 32 + nonceSize + 8 + 8 ≤ data.length := long
  simp only [splitEncryptedPayload, splitBody, Outcome.ensure, publicKeyLen, guard, decide_true,
    if_true, cipherLenSize, aadLenSize, Outcome.ok_bind, keySlice, cipherSlice, aadSlice,
    FixedBytes.copyFromSlice_of_length (keyField_length long),
    FixedBytes.copyFromSlice_of_length (cipherField_length long),
    FixedBytes.copyFromSlice_of_length (aadField_length long), add1, add2, cipherConv, aadConv]

theorem split_of_short {mode : OverflowMode} {data : Bytes} (short : data.length < 63) :
    splitEncryptedPayload mode data = .err "invalid nonce or public key" := by
  have guard : ¬publicKeyLen + nonceSize + cipherLenSize + aadLenSize ≤ data.length := by
    simp only [publicKeyLen, nonceSize, cipherLenSize, aadLenSize]
    omega
  simp [splitEncryptedPayload, Outcome.ensure, guard]

variable {data : Bytes} {key : PublicKey} {cipherLen aadLen : Nat}

theorem splitBody_exact {mode : OverflowMode} (short : data.length < 2 ^ 63)
    (exact : data.length = 63 + cipherLen + aadLen) :
    splitBody mode data key cipherLen aadLen =
      .ok ⟨key, cipherLen, aadLen, (data.take (48 + cipherLen)).drop 48,
        (data.take (48 + cipherLen + aadLen)).drop (48 + cipherLen),
        Nonce.new ⟨data.drop (48 + cipherLen + aadLen), nonceField_length exact⟩⟩ := by
  have add1 : (usizeAdd mode 48 cipherLen : Outcome String Nat) = .ok (48 + cipherLen) :=
    usizeAdd_of_lt (by omega)
  have add2 : (usizeAdd mode (48 + cipherLen) aadLen : Outcome String Nat) =
      .ok (48 + cipherLen + aadLen) := usizeAdd_of_lt (by omega)
  have add3 : (usizeAdd mode (48 + cipherLen + aadLen) nonceSize : Outcome String Nat) =
      .ok data.length := by
    rw [usizeAdd_of_lt (by simp only [nonceSize]; omega)]
    simp only [nonceSize]
    congr 1
    omega
  have cipherSlice : (slice data 48 (48 + cipherLen) : Outcome String Bytes) =
      .ok ((data.take (48 + cipherLen)).drop 48) := slice_of_range (by omega) (by omega)
  have aadSlice : (slice data (48 + cipherLen) (48 + cipherLen + aadLen) : Outcome String Bytes) =
      .ok ((data.take (48 + cipherLen + aadLen)).drop (48 + cipherLen)) :=
    slice_of_range (by omega) (by omega)
  have nonceSlice : (slice data (48 + cipherLen + aadLen) data.length : Outcome String Bytes) =
      .ok (data.drop (48 + cipherLen + aadLen)) := by
    rw [slice_of_range (by omega) (Nat.le_refl _), List.take_length]
  simp only [splitBody, add1, add2, add3, Outcome.ok_bind, Outcome.ensure, decide_true, if_true,
    cipherSlice, aadSlice, nonceSlice, FixedBytes.copyFromSlice_of_length (nonceField_length exact),
    Outcome.pure_eq_ok]

theorem splitBody_inexact {mode : OverflowMode} (fits : 63 + cipherLen + aadLen < 2 ^ 64)
    (inexact : data.length ≠ 63 + cipherLen + aadLen) :
    splitBody mode data key cipherLen aadLen = .err "invalid size for ciphertext" := by
  have add1 : (usizeAdd mode 48 cipherLen : Outcome String Nat) = .ok (48 + cipherLen) :=
    usizeAdd_of_lt (by omega)
  have add2 : (usizeAdd mode (48 + cipherLen) aadLen : Outcome String Nat) =
      .ok (48 + cipherLen + aadLen) := usizeAdd_of_lt (by omega)
  have add3 : (usizeAdd mode (48 + cipherLen + aadLen) nonceSize : Outcome String Nat) =
      .ok (48 + cipherLen + aadLen + nonceSize) :=
    usizeAdd_of_lt (by simp only [nonceSize]; omega)
  have unequal : ¬data.length = 48 + cipherLen + aadLen + nonceSize := by
    simp only [nonceSize]
    omega
  simp [splitBody, add1, add2, add3, Outcome.ensure, unequal]

theorem splitBody_checked (overflow : 2 ^ 64 ≤ 63 + cipherLen + aadLen) :
    splitBody .checked data key cipherLen aadLen = .panic .arithmeticOverflow := by
  by_cases first : 48 + cipherLen < 2 ^ 64
  · by_cases second : 48 + cipherLen + aadLen < 2 ^ 64
    · have third : 2 ^ 64 ≤ 48 + cipherLen + aadLen + nonceSize := by
        simp only [nonceSize]
        omega
      simp only [splitBody, usizeAdd_of_lt first, usizeAdd_of_lt second,
        usizeAdd_checked_of_ge third, Outcome.ok_bind, Outcome.panic_bind]
    · simp only [splitBody, usizeAdd_of_lt first, usizeAdd_checked_of_ge (Nat.not_lt.mp second),
        Outcome.ok_bind, Outcome.panic_bind]
  · simp only [splitBody, usizeAdd_checked_of_ge (Nat.not_lt.mp first), Outcome.panic_bind]

theorem splitBody_wrapping_refused
    (differs : data.length ≠ (63 + cipherLen + aadLen) % 2 ^ 64) :
    splitBody .wrapping data key cipherLen aadLen = .err "invalid size for ciphertext" := by
  have reduced : (((48 + cipherLen) % 2 ^ 64 + aadLen) % 2 ^ 64 + nonceSize) % 2 ^ 64 =
      (63 + cipherLen + aadLen) % 2 ^ 64 := by
    simp only [nonceSize]
    omega
  have unequal : ¬data.length =
      (((48 + cipherLen) % 2 ^ 64 + aadLen) % 2 ^ 64 + nonceSize) % 2 ^ 64 := by
    rw [reduced]
    exact differs
  simp only [splitBody, usizeAdd_wrapping, Outcome.ok_bind, Outcome.ensure, unequal, decide_false,
    Bool.false_eq_true, if_false, Outcome.err_bind]

theorem splitBody_wrapping_crash (cipherWord : cipherLen < 2 ^ 64) (aadWord : aadLen < 2 ^ 64)
    (short : data.length < 2 ^ 63) (long : 63 ≤ data.length)
    (overflow : 2 ^ 64 ≤ 63 + cipherLen + aadLen)
    (equal : data.length = (63 + cipherLen + aadLen) % 2 ^ 64) :
    splitBody .wrapping data key cipherLen aadLen = .panic .sliceRange := by
  have reduced : (((48 + cipherLen) % 2 ^ 64 + aadLen) % 2 ^ 64 + nonceSize) % 2 ^ 64 =
      data.length := by
    simp only [nonceSize]
    omega
  simp only [splitBody, usizeAdd_wrapping, Outcome.ok_bind, Outcome.ensure, reduced, decide_true,
    if_true]
  by_cases inside : 48 ≤ (48 + cipherLen) % 2 ^ 64 ∧ (48 + cipherLen) % 2 ^ 64 ≤ data.length
  · have crossed : ¬((48 + cipherLen) % 2 ^ 64 ≤ ((48 + cipherLen) % 2 ^ 64 + aadLen) % 2 ^ 64 ∧
        ((48 + cipherLen) % 2 ^ 64 + aadLen) % 2 ^ 64 ≤ data.length) := by
      omega
    simp only [slice_of_range inside.1 inside.2, slice_out_of_range crossed, Outcome.ok_bind,
      Outcome.panic_bind]
  · simp only [slice_out_of_range inside, Outcome.panic_bind]

theorem encodeEncryption_length (ciphertext : Bytes) (nonce : Nonce) (publicKey : PublicKey)
    (aad : Bytes) :
    (encodeEncryption ciphertext nonce publicKey aad).length =
      63 + ciphertext.length + aad.length := by
  simp only [encodeEncryption, List.length_append, publicKey.length_eq, toLeBytes_length,
    nonce.current.length_eq, nonceSize]
  omega

/-- The header fields of an encoding are the key and the two lengths. -/
theorem encodeEncryption_header (ciphertext : Bytes) (nonce : Nonce) (publicKey : PublicKey)
    (aad : Bytes) (cipherWord : ciphertext.length < 2 ^ 64) (aadWord : aad.length < 2 ^ 64) :
    (encodeEncryption ciphertext nonce publicKey aad).take 32 = publicKey.bytes ∧
      cipherLenField (encodeEncryption ciphertext nonce publicKey aad) = ciphertext.length ∧
      aadLenField (encodeEncryption ciphertext nonce publicKey aad) = aad.length := by
  have keyWidth := publicKey.length_eq
  have firstTwo : (publicKey.bytes ++ toLeBytes 8 ciphertext.length).length = 40 := by
    simp [keyWidth]
  have firstThree : (publicKey.bytes ++ toLeBytes 8 ciphertext.length ++
      toLeBytes 8 aad.length).length = 48 := by
    simp [keyWidth]
  refine ⟨?_, ?_, ?_⟩
  · simp only [encodeEncryption, List.append_assoc]
    exact List.take_left' keyWidth
  · have taken : (encodeEncryption ciphertext nonce publicKey aad).take 40 =
        publicKey.bytes ++ toLeBytes 8 ciphertext.length := by
      simp only [encodeEncryption, List.append_assoc]
      rw [← List.append_assoc]
      exact List.take_left' firstTwo
    rw [cipherLenField, taken, List.drop_left' keyWidth]
    exact fromLeBytes_toLeBytes cipherWord
  · have taken : (encodeEncryption ciphertext nonce publicKey aad).take 48 =
        publicKey.bytes ++ toLeBytes 8 ciphertext.length ++ toLeBytes 8 aad.length := by
      have grouped : encodeEncryption ciphertext nonce publicKey aad =
          publicKey.bytes ++ toLeBytes 8 ciphertext.length ++ toLeBytes 8 aad.length ++
            (ciphertext ++ (aad ++ nonce.current.bytes)) := by
        simp only [encodeEncryption, List.append_assoc]
      rw [grouped]
      exact List.take_left' firstThree
    rw [aadLenField, taken, List.drop_left' firstTwo]
    exact fromLeBytes_toLeBytes aadWord

/-- The parts of an encoding after its header are the message, the data and the nonce. -/
theorem encodeEncryption_body (ciphertext : Bytes) (nonce : Nonce) (publicKey : PublicKey)
    (aad : Bytes) :
    ((encodeEncryption ciphertext nonce publicKey aad).take (48 + ciphertext.length)).drop 48 =
        ciphertext ∧
      ((encodeEncryption ciphertext nonce publicKey aad).take
        (48 + ciphertext.length + aad.length)).drop (48 + ciphertext.length) = aad ∧
      (encodeEncryption ciphertext nonce publicKey aad).drop
        (48 + ciphertext.length + aad.length) = nonce.current.bytes := by
  let header := publicKey.bytes ++ toLeBytes 8 ciphertext.length ++ toLeBytes 8 aad.length
  have headerWidth : header.length = 48 := by
    simp [header, publicKey.length_eq]
  have layout : encodeEncryption ciphertext nonce publicKey aad =
      header ++ ciphertext ++ aad ++ nonce.current.bytes := rfl
  have messageWidth : (header ++ ciphertext).length = 48 + ciphertext.length := by
    rw [List.length_append, headerWidth]
  have dataWidth : (header ++ ciphertext ++ aad).length =
      48 + ciphertext.length + aad.length := by
    rw [List.length_append, messageWidth]
  rw [layout]
  refine ⟨?_, ?_, List.drop_left' dataWidth⟩
  · rw [List.append_assoc (header ++ ciphertext), List.take_left' messageWidth,
      List.drop_left' headerWidth]
  · rw [List.take_left' dataWidth, List.drop_left' messageWidth]

/-- Splitting an encoding returns the fields it was built from, with a fresh nonce. -/
theorem split_encodeEncryption (mode : OverflowMode) (ciphertext : Bytes) (nonce : Nonce)
    (publicKey : PublicKey) (aad : Bytes)
    (short : (encodeEncryption ciphertext nonce publicKey aad).length < 2 ^ 63) :
    splitEncryptedPayload mode (encodeEncryption ciphertext nonce publicKey aad) =
      .ok ⟨publicKey, ciphertext.length, aad.length, ciphertext, aad,
        Nonce.new nonce.current⟩ := by
  have total := encodeEncryption_length ciphertext nonce publicKey aad
  obtain ⟨keyField, cipherField, aadField⟩ :=
    encodeEncryption_header ciphertext nonce publicKey aad (by omega) (by omega)
  obtain ⟨message, data, last⟩ := encodeEncryption_body ciphertext nonce publicKey aad
  rw [split_of_long (by omega)]
  simp only [cipherField, aadField]
  rw [splitBody_exact short total]
  simp only [keyField, message, data, last]

/-- An accepted payload is the encoding of the fields it was split into. -/
theorem encode_of_splitBody {data : Bytes} (long : 63 ≤ data.length)
    (exact : data.length = announcedLength data) :
    data = encodeEncryption ((data.take (48 + cipherLenField data)).drop 48)
      (Nonce.new ⟨data.drop (48 + cipherLenField data + aadLenField data),
        nonceField_length exact⟩)
      ⟨data.take 32, keyField_length long⟩
      ((data.take (48 + cipherLenField data + aadLenField data)).drop
        (48 + cipherLenField data)) := by
  simp only [announcedLength] at exact
  have messageWidth : ((data.take (48 + cipherLenField data)).drop 48).length =
      cipherLenField data := by
    simp
    omega
  have dataWidth : ((data.take (48 + cipherLenField data + aadLenField data)).drop
      (48 + cipherLenField data)).length = aadLenField data := by
    simp
    omega
  have cipherWord : toLeBytes 8 (cipherLenField data) = (data.take 40).drop 32 := by
    have digits := toLeBytes_fromLeBytes ((data.take 40).drop 32)
    rwa [cipherField_length long] at digits
  have aadWord : toLeBytes 8 (aadLenField data) = (data.take 48).drop 40 := by
    have digits := toLeBytes_fromLeBytes ((data.take 48).drop 40)
    rwa [aadField_length long] at digits
  simp only [encodeEncryption, Nonce.new, messageWidth, dataWidth, cipherWord, aadWord]
  rw [take_append_slice (by decide), take_append_slice (by decide),
    take_append_slice (by omega), take_append_slice (by omega), List.take_append_drop]

/-- The fields of a split payload determine the payload, and its nonce is fresh. -/
structure SplitPayload.Of (split : SplitPayload) (data : Bytes) : Prop where
  /-- The payload is the encoding of the fields. -/
  encoded : data = encodeEncryption split.cipher split.nonce split.peerPublicKey split.aad
  /-- CIPHER_LEN is the length of the message. -/
  cipherLen : split.cipherLen = split.cipher.length
  /-- AAD_LEN is the length of the additional data. -/
  aadLen : split.aadLen = split.aad.length
  /-- The nonce was just created. -/
  fresh : split.nonce = Nonce.new split.nonce.current

/-- Everything the splitter can do. The last two cases are the crashes: the announced length
leaves the machine word, and either the addition itself panics, or the reduced sum happens to
equal the length of the payload and a slice is taken out of range. -/
theorem split_cases (mode : OverflowMode) {data : Bytes} (short : data.length < 2 ^ 63) :
    (data.length < 63 ∧
      splitEncryptedPayload mode data = .err "invalid nonce or public key") ∨
    (63 ≤ data.length ∧ announcedLength data < 2 ^ 64 ∧
      ∃ split, splitEncryptedPayload mode data = .ok split ∧ split.Of data) ∨
    (63 ≤ data.length ∧
      (announcedLength data < 2 ^ 64 ∨
        mode = .wrapping ∧ announcedLength data % 2 ^ 64 ≠ data.length) ∧
      splitEncryptedPayload mode data = .err "invalid size for ciphertext") ∨
    (63 ≤ data.length ∧ 2 ^ 64 ≤ announcedLength data ∧ mode = .checked ∧
      splitEncryptedPayload mode data = .panic .arithmeticOverflow) ∨
    (63 ≤ data.length ∧ 2 ^ 64 ≤ announcedLength data ∧ mode = .wrapping ∧
      announcedLength data % 2 ^ 64 = data.length ∧
      splitEncryptedPayload mode data = .panic .sliceRange) := by
  by_cases long : 63 ≤ data.length
  · rw [split_of_long long]
    by_cases fits : announcedLength data < 2 ^ 64
    · by_cases exact : data.length = announcedLength data
      · refine .inr (.inl ⟨long, fits, _, splitBody_exact short exact, ?_⟩)
        have written := encode_of_splitBody long exact
        simp only [announcedLength] at exact
        exact ⟨written, by simp; omega, by simp; omega, rfl⟩
      · exact .inr (.inr (.inl ⟨long, .inl fits, splitBody_inexact fits exact⟩))
    · have overflow : 2 ^ 64 ≤ announcedLength data := Nat.not_lt.mp fits
      cases mode with
      | checked =>
        exact .inr (.inr (.inr (.inl ⟨long, overflow, rfl, splitBody_checked overflow⟩)))
      | wrapping =>
        by_cases equal : announcedLength data % 2 ^ 64 = data.length
        · exact .inr (.inr (.inr (.inr ⟨long, overflow, rfl, equal, splitBody_wrapping_crash
            (cipherLenField_lt long) (aadLenField_lt long) short long overflow equal.symm⟩)))
        · exact .inr (.inr (.inl ⟨long, .inr ⟨rfl, equal⟩,
            splitBody_wrapping_refused (Ne.symm equal)⟩))
  · exact .inl ⟨Nat.not_le.mp long, split_of_short (Nat.not_le.mp long)⟩

/-- The two length fields cannot crash the splitter: the payload is refused before they are
read, or their sum stays in the machine word, or, in a build that wraps, the wrapped sum is
not the length of the payload. -/
def LengthsFit (mode : OverflowMode) (data : Bytes) : Prop :=
  data.length < 63 ∨ announcedLength data < 2 ^ 64 ∨
    mode = .wrapping ∧ announcedLength data % 2 ^ 64 ≠ data.length

instance (mode : OverflowMode) (data : Bytes) : Decidable (LengthsFit mode data) :=
  inferInstanceAs (Decidable (_ ∨ _ ∨ _ ∧ _))

/-- The splitter panics exactly when the lengths do not fit. -/
theorem panics_split_iff (mode : OverflowMode) {data : Bytes} (short : data.length < 2 ^ 63) :
    (splitEncryptedPayload mode data).Panics ↔ ¬LengthsFit mode data := by
  rcases split_cases mode short with ⟨brief, result⟩ | ⟨long, fits, split, result, _⟩ |
    ⟨long, refused, result⟩ | ⟨long, overflow, rfl, result⟩ | ⟨long, overflow, rfl, equal, result⟩
  · have allowed : LengthsFit mode data := .inl brief
    rw [result]
    exact iff_of_false (Outcome.not_panics_err _) (not_not_intro allowed)
  · have allowed : LengthsFit mode data := .inr (.inl fits)
    rw [result]
    exact iff_of_false (Outcome.not_panics_ok _) (not_not_intro allowed)
  · have allowed : LengthsFit mode data := .inr refused
    rw [result]
    exact iff_of_false (Outcome.not_panics_err _) (not_not_intro allowed)
  · rw [result]
    refine iff_of_true (Outcome.panics_panic _) ?_
    rintro (brief | fits | ⟨impossible, _⟩)
    · omega
    · omega
    · cases impossible
  · rw [result]
    refine iff_of_true (Outcome.panics_panic _) ?_
    rintro (brief | fits | ⟨_, unequal⟩)
    · omega
    · omega
    · exact unequal equal

variable (P : Primitives) (mode : OverflowMode)

/-- Opening a payload adds no crash to splitting it. -/
theorem panics_decrypt_iff (data : Bytes) (secretKey : PrivateKey) :
    (decrypt P mode (some data) secretKey).Panics ↔
      (splitEncryptedPayload mode data).Panics := by
  simp only [decrypt, Outcome.panics_bind, Outcome.panics_mapErr, Outcome.not_panics_ofExcept,
    Outcome.pure_eq_ok, Outcome.not_panics_ok, and_false, exists_false, or_false]

/-- With a contract set, a session payload crashes the context exactly when it crashes the
splitter. -/
theorem panics_decryptSession_iff {ctx : ConfidentialCtx} (hasContract : ctx.contract.isSome)
    (data : Bytes) :
    (ctx.decryptSession P mode data).1.Panics ↔ (splitEncryptedPayload mode data).Panics := by
  obtain ⟨⟨address, keys⟩, contract⟩ := Option.isSome_iff_exists.mp hasContract
  rw [← panics_decrypt_iff P mode data keys.inputKeypair.sk]
  simp only [ConfidentialCtx.decryptSession, contract]
  cases decrypt P mode (some data) keys.inputKeypair.sk with
  | panic cause => simp
  | err message => simp
  | ok decryption =>
    cases incremented : decryption.nonce.increment P with
    | error message => simp [incremented]
    | ok next => simp [incremented]

/-- A payload is handled without a crash exactly when its two length fields fit. Neither build
crashes, that is, no addition overflows and every slice is in range, exactly when the payload is
refused for its length or the announced length is a machine word. -/
theorem payload_panic_free_iff (data : Bytes) (short : data.length < 2 ^ 63)
    (secretKey : PrivateKey) (ctx : ConfidentialCtx) (hasContract : ctx.contract.isSome) :
    (¬(splitEncryptedPayload mode data).Panics ↔ LengthsFit mode data) ∧
      (¬(decrypt P mode (some data) secretKey).Panics ↔ LengthsFit mode data) ∧
      (¬(ctx.decryptSession P mode data).1.Panics ↔ LengthsFit mode data) ∧
      ((∀ build, ¬(splitEncryptedPayload build data).Panics) ↔
        data.length < 63 ∨ announcedLength data < 2 ^ 64) := by
  have split (build : OverflowMode) : ¬(splitEncryptedPayload build data).Panics ↔
      LengthsFit build data := by
    rw [panics_split_iff build short, not_not]
  refine ⟨split mode, ?_, ?_, ?_⟩
  · rw [panics_decrypt_iff, split mode]
  · rw [panics_decryptSession_iff P mode hasContract, split mode]
  · constructor
    · intro calm
      have fits := (split .checked).mp (calm .checked)
      simpa [LengthsFit] using fits
    · intro fits build
      apply (split build).mpr
      rcases fits with brief | word
      · exact .inl brief
      · exact .inr (.inl word)

/-- A payload of the minimal length whose announced lengths are `2^64 - 1` and `1`. -/
def wrappedLengthsPayload : Bytes :=
  List.replicate 32 0 ++ List.replicate 8 0xff ++ (1 :: List.replicate 7 0) ++ List.replicate 15 0

/-- A context in which a contract with zero keys has been activated. -/
def sampleCtx : ConfidentialCtx :=
  (ConfidentialCtx.activate samplePrimitives
    (fun _ => .ok ⟨⟨FixedBytes.filled 32 0, FixedBytes.filled 32 0⟩, FixedBytes.filled 32 0⟩)
    (ConfidentialCtx.new (FixedBytes.filled 32 0)) (some (FixedBytes.filled 20 0))).2

/-- Both builds crash on it: the sum of the lengths is the payload's length modulo 2^64. -/
theorem wrapped_lengths_crash :
    wrappedLengthsPayload.length < 2 ^ 63 ∧
      splitEncryptedPayload .checked wrappedLengthsPayload = .panic .arithmeticOverflow ∧
      splitEncryptedPayload .wrapping wrappedLengthsPayload = .panic .sliceRange ∧
      (decrypt samplePrimitives .wrapping (some wrappedLengthsPayload)
        (FixedBytes.filled 32 0)).Panics ∧
      (sampleCtx.decryptSession samplePrimitives .wrapping wrappedLengthsPayload).1.Panics := by
  decide

/-- An empty message in its frame is handled in both builds. -/
theorem empty_message_handled :
    LengthsFit .checked (encodeEncryption [] (Nonce.new (FixedBytes.filled 15 0))
        (FixedBytes.filled 32 0) []) ∧
      ¬(sampleCtx.decryptSession samplePrimitives .checked
        (encodeEncryption [] (Nonce.new (FixedBytes.filled 15 0))
          (FixedBytes.filled 32 0) [])).1.Panics := by
  have fits : LengthsFit .checked (encodeEncryption [] (Nonce.new (FixedBytes.filled 15 0))
      (FixedBytes.filled 32 0) []) := by decide
  have free := payload_panic_free_iff samplePrimitives .checked
    (encodeEncryption [] (Nonce.new (FixedBytes.filled 15 0)) (FixedBytes.filled 32 0) [])
    (by decide) (FixedBytes.filled 32 0) sampleCtx (by decide)
  exact ⟨fits, free.2.2.1.mpr fits⟩

/-- The splitter accepts exactly the encodings, and returns the fields of each. -/
theorem split_eq_ok_iff {data : Bytes} (short : data.length < 2 ^ 63) (split : SplitPayload) :
    splitEncryptedPayload mode data = .ok split ↔ split.Of data := by
  constructor
  · intro accepted
    rcases split_cases mode short with ⟨_, result⟩ | ⟨_, _, fields, result, written⟩ |
      ⟨_, _, result⟩ | ⟨_, _, _, result⟩ | ⟨_, _, _, _, result⟩
    · simp [result] at accepted
    · rw [result] at accepted
      cases accepted
      exact written
    · simp [result] at accepted
    · simp [result] at accepted
    · simp [result] at accepted
  · rintro ⟨encoded, cipherLen, aadLen, fresh⟩
    rw [encoded] at short
    have undone := split_encodeEncryption mode split.cipher split.nonce split.peerPublicKey
      split.aad short
    rw [← encoded, ← cipherLen, ← aadLen, ← fresh] at undone
    exact undone

/-- The wire format is exact. A payload that does not crash the splitter is accepted exactly
when it is the encoding of the returned fields, and refused with an error when it is no
encoding; splitting undoes encoding; and an encoding determines its fields. -/
theorem wire_format_exact (data : Bytes) (short : data.length < 2 ^ 63)
    (calm : ¬(splitEncryptedPayload mode data).Panics) :
    (∀ publicKey cipherLen aadLen cipher aad nonce,
      splitEncryptedPayload mode data =
          .ok ⟨publicKey, cipherLen, aadLen, cipher, aad, Nonce.new nonce⟩ ↔
        data = encodeEncryption cipher (Nonce.new nonce) publicKey aad ∧
          cipherLen = cipher.length ∧ aadLen = aad.length) ∧
      (∀ split, splitEncryptedPayload mode data = .ok split →
        split.nonce = Nonce.new split.nonce.current) ∧
      ((¬∃ cipher nonce publicKey aad, data = encodeEncryption cipher nonce publicKey aad) →
        ∃ message, splitEncryptedPayload mode data = .err message) ∧
      (∀ cipher nonce publicKey aad, (encodeEncryption cipher nonce publicKey aad).length < 2 ^ 63 →
        splitEncryptedPayload mode (encodeEncryption cipher nonce publicKey aad) =
          .ok ⟨publicKey, cipher.length, aad.length, cipher, aad, Nonce.new nonce.current⟩) ∧
      (∀ cipher nonce publicKey aad cipher' nonce' publicKey' aad',
        encodeEncryption cipher nonce publicKey aad = data →
        encodeEncryption cipher' nonce' publicKey' aad' = data →
          cipher = cipher' ∧ nonce.current = nonce'.current ∧ publicKey = publicKey' ∧
            aad = aad') := by
  refine ⟨?_, ?_, ?_, ?_, ?_⟩
  · intro publicKey cipherLen aadLen cipher aad nonce
    rw [split_eq_ok_iff mode short]
    constructor
    · rintro ⟨encoded, cipherWidth, aadWidth, _⟩
      exact ⟨encoded, cipherWidth, aadWidth⟩
    · rintro ⟨encoded, cipherWidth, aadWidth⟩
      exact ⟨encoded, cipherWidth, aadWidth, rfl⟩
  · intro split accepted
    exact ((split_eq_ok_iff mode short split).mp accepted).fresh
  · intro foreign
    cases result : splitEncryptedPayload mode data with
    | panic cause => exact absurd ⟨cause, result⟩ calm
    | err message => exact ⟨message, rfl⟩
    | ok split =>
      have written := (split_eq_ok_iff mode short split).mp result
      exact absurd ⟨_, _, _, _, written.encoded⟩ foreign
  · intro cipher nonce publicKey aad encodedShort
    exact split_encodeEncryption mode cipher nonce publicKey aad encodedShort
  · rintro cipher nonce publicKey aad cipher' nonce' publicKey' aad' rfl same
    have first := split_encodeEncryption mode cipher nonce publicKey aad short
    have second := split_encodeEncryption mode cipher' nonce' publicKey' aad' (same ▸ short)
    rw [same, first] at second
    simp only [Outcome.ok.injEq, SplitPayload.mk.injEq, Nonce.new, Nonce.mk.injEq] at second
    obtain ⟨keys, _, _, ciphers, aads, nonces, _⟩ := second
    exact ⟨ciphers, nonces, keys, aads⟩

/-- The frame of a message with additional data is accepted with its fields. -/
theorem wire_format_sample :
    splitEncryptedPayload .checked (encodeEncryption [1, 2, 3] (Nonce.new (FixedBytes.filled 15 7))
        (FixedBytes.filled 32 9) [4]) =
      .ok ⟨FixedBytes.filled 32 9, 3, 1, [1, 2, 3], [4], Nonce.new (FixedBytes.filled 15 7)⟩ := by
  have format := wire_format_exact .checked
    (encodeEncryption [1, 2, 3] (Nonce.new (FixedBytes.filled 15 7)) (FixedBytes.filled 32 9) [4])
    (by decide) (by decide)
  exact (format.1 _ _ _ _ _ _).mpr ⟨rfl, rfl, rfl⟩

end Ethwasi.Confidential
