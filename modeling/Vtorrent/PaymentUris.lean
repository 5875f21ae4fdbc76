import Vtorrent.BodyCommitment
import Vtorrent.DecimalText
import Vtorrent.PaymentBuilder
import Vtorrent.PercentEncoding

/-!
# Payment requests as URIs

A payment request is written as a scheme, an address and optional parameters.  Texts are
percent-encoded, amounts are decimal fractions without trailing zeros.
-/

namespace Vtorrent

open DecimalText

def coinSats : Nat := 100000000

structure PaymentUri where
  address : String
  amountSats : Option UInt64
  label : Option String
  message : Option String
  req : Option String
  deriving DecidableEq

def amountError (reason : String) (vtr : List Char) : CoreError :=
  .invalidAddress (reason ++ String.ofList vtr)

def integerPart (vtr intPart : List Char) : Except CoreError UInt64 :=
  if intPart = [] then .ok 0
  else required (amountError "amount overflow: " vtr) (parseU64 intPart)

def satsOfParts (vtr intPart fracPart : List Char) : Except CoreError UInt64 := do
  rejectIf (!intPart.all Char.isDigit || !fracPart.all Char.isDigit)
    (amountError "invalid amount: " vtr)
  rejectIf (8 < fracPart.length) (amountError "amount has more than 8 decimals: " vtr)
  let int ← integerPart vtr intPart
  let frac ← required (amountError "invalid fraction: " vtr)
    (parseU64 (fracPart ++ List.replicate (8 - fracPart.length) '0'))
  rejectIf (2 ^ 64 ≤ int.toNat * coinSats + frac.toNat) (amountError "amount overflow: " vtr)
  pure (UInt64.ofNat (int.toNat * coinSats + frac.toNat))

def parseSats (vtr : List Char) : Except CoreError UInt64 := do
  let vtr := trim vtr
  rejectIf (vtr == []) (CoreError.invalidAddress "empty amount")
  let parts := (splitOnce '.' vtr).getD (vtr, [])
  satsOfParts vtr parts.1 parts.2

def paddedFraction (frac : Nat) : List Char :=
  List.replicate (8 - (Nat.toDigits 10 frac).length) '0' ++ Nat.toDigits 10 frac

/-- Satoshis as a decimal amount without trailing zeros. -/
def formatSats (sats : UInt64) : List Char :=
  let int := sats.toNat / coinSats
  let frac := sats.toNat % coinSats
  if frac = 0 then Nat.toDigits 10 int
  else Nat.toDigits 10 int ++ '.' :: (paddedFraction frac).rdropWhile (· == '0')

example : formatSats 150000000 = "1.5".toList := by decide
example : formatSats 1 = "0.00000001".toList := by decide
example : parseSats ".5".toList = .ok 50000000 := by decide

section Amounts

theorem ofDigitChars_zeros (count number : Nat) :
    Nat.ofDigitChars 10 (List.replicate count '0') number = number * 10 ^ count := by
  induction count generalizing number with
  | zero => simp [Nat.ofDigitChars]
  | succ count ih =>
      have zero : '0'.toNat - '0'.toNat = 0 := Nat.sub_self _
      rw [List.replicate_succ, Nat.ofDigitChars_cons, ih, zero, Nat.add_zero, Nat.pow_succ]
      ring

theorem length_paddedFraction {frac : Nat} (small : frac < coinSats) :
    (paddedFraction frac).length = 8 := by
  have short := (@Nat.length_toDigits_le_iff 10 frac 8 (by decide) (by decide)).mpr small
  rw [paddedFraction, List.length_append, List.length_replicate]
  omega

theorem ofDigitChars_paddedFraction (frac : Nat) :
    Nat.ofDigitChars 10 (paddedFraction frac) 0 = frac := by
  rw [paddedFraction, Nat.ofDigitChars_append, ofDigitChars_zeros, Nat.zero_mul,
    Nat.ofDigitChars_toDigits (by decide) (by decide)]

theorem isDigit_of_mem_paddedFraction {frac : Nat} {symbol : Char}
    (member : symbol ∈ paddedFraction frac) : symbol.isDigit = true := by
  rcases List.mem_append.mp member with zero | digit
  · rw [List.eq_of_mem_replicate zero]
    rfl
  · exact isDigit_of_mem_toDigits digit

/-- The zeros that printing drops are the ones that reading appends. -/
theorem rdropWhile_append_zeros (digits : List Char) {width : Nat}
    (length : digits.length = width) :
    digits.rdropWhile (· == '0') ++
      List.replicate (width - (digits.rdropWhile (· == '0')).length) '0' = digits := by
  have whole := @List.rdropWhile_append_rtakeWhile _ (· == '0') digits
  have zeros : digits.rtakeWhile (· == '0') =
      List.replicate (digits.rtakeWhile (· == '0')).length '0' :=
    List.eq_replicate_of_mem fun symbol member => by
      simpa using List.mem_rtakeWhile_imp member
  have count := congrArg List.length whole
  rw [List.length_append] at count
  have dropped : width - (digits.rdropWhile (· == '0')).length =
      (digits.rtakeWhile (· == '0')).length := by
    omega
  rw [dropped, ← zeros, whole]

theorem satsOfParts_eq_ok {vtr fracPart : List Char} {int frac : Nat}
    (fracDigits : ∀ symbol ∈ fracPart, symbol.isDigit = true) (short : fracPart.length ≤ 8)
    (fraction : Nat.ofDigitChars 10 (fracPart ++ List.replicate (8 - fracPart.length) '0') 0 =
      frac)
    (fits : int * coinSats + frac < 2 ^ 64) :
    satsOfParts vtr (Nat.toDigits 10 int) fracPart =
      .ok (UInt64.ofNat (int * coinSats + frac)) := by
  have intSmall : int < 2 ^ 64 := by
    rw [coinSats] at fits
    omega
  have printed : parseU64 (Nat.toDigits 10 int) = some (UInt64.ofNat int) := by
    have value : Nat.ofDigitChars 10 (Nat.toDigits 10 int) 0 = int :=
      Nat.ofDigitChars_toDigits (by decide) (by decide)
    rw [parseU64_digits Nat.toDigits_ne_nil (fun _ => isDigit_of_mem_toDigits)
      (by rw [value]; exact intSmall), value]
  have padded : parseU64 (fracPart ++ List.replicate (8 - fracPart.length) '0') =
      some (UInt64.ofNat frac) := by
    rw [parseU64_digits ?_ ?_ (by rw [fraction]; omega), fraction]
    · refine List.ne_nil_of_length_pos ?_
      rw [List.length_append, List.length_replicate]
      omega
    · intro symbol member
      rcases List.mem_append.mp member with digit | zero
      · exact fracDigits symbol digit
      · rw [List.eq_of_mem_replicate zero]
        rfl
  have digits : (!(Nat.toDigits 10 int).all Char.isDigit || !fracPart.all Char.isDigit) =
      false := by
    simp only [Bool.or_eq_false_iff, Bool.not_eq_false', List.all_eq_true]
    exact ⟨fun _ => isDigit_of_mem_toDigits, fracDigits⟩
  have intValue : (UInt64.ofNat int).toNat = int := by
    rw [UInt64.toNat_ofNat', Nat.mod_eq_of_lt intSmall]
  have fracValue : (UInt64.ofNat frac).toNat = frac := by
    rw [UInt64.toNat_ofNat', Nat.mod_eq_of_lt (by omega)]
  refine Checked.bind_eq_ok.mpr ⟨(), Checked.rejectIf_eq_ok.mpr digits, ?_⟩
  refine Checked.bind_eq_ok.mpr
    ⟨(), Checked.rejectIf_eq_ok.mpr (decide_eq_false (by omega)), ?_⟩
  refine Checked.bind_eq_ok.mpr ⟨UInt64.ofNat int, ?_, ?_⟩
  · rw [integerPart, if_neg Nat.toDigits_ne_nil, printed]
    rfl
  refine Checked.bind_eq_ok.mpr ⟨UInt64.ofNat frac, by rw [padded]; rfl, ?_⟩
  rw [intValue, fracValue]
  exact Checked.bind_eq_ok.mpr
    ⟨(), Checked.rejectIf_eq_ok.mpr (decide_eq_false (by omega)), rfl⟩

theorem parseSats_eq {text : List Char} (nonempty : text ≠ [])
    (visible : ∀ symbol ∈ text, DecimalText.isWhitespace symbol = false) :
    parseSats text = satsOfParts text ((splitOnce '.' text).getD (text, [])).1
      ((splitOnce '.' text).getD (text, [])).2 := by
  have present : (text == []) = false := by simpa using nonempty
  rw [parseSats]
  dsimp only
  rw [trim_eq_self visible, present]
  rfl

theorem isWhitespace_of_mem_toDigits {number : Nat} {symbol : Char}
    (member : symbol ∈ Nat.toDigits 10 number) : DecimalText.isWhitespace symbol = false :=
  isWhitespace_of_isDigit (isDigit_of_mem_toDigits member)

theorem point_not_mem_toDigits (number : Nat) : '.' ∉ Nat.toDigits 10 number :=
  not_mem_toDigits (by decide) number

theorem parseSats_formatSats (sats : UInt64) : parseSats (formatSats sats) = .ok sats := by
  have split : sats.toNat / coinSats * coinSats + sats.toNat % coinSats = sats.toNat :=
    Nat.div_add_mod' sats.toNat coinSats
  have fits : sats.toNat / coinSats * coinSats + sats.toNat % coinSats < 2 ^ 64 := by
    rw [split]
    exact sats.toNat_lt
  have fracSmall : sats.toNat % coinSats < coinSats := Nat.mod_lt _ (by decide)
  have back : UInt64.ofNat (sats.toNat / coinSats * coinSats + sats.toNat % coinSats) = sats := by
    rw [split, UInt64.ofNat_toNat]
  rw [formatSats]
  by_cases whole : sats.toNat % coinSats = 0
  · rw [if_pos whole, parseSats_eq Nat.toDigits_ne_nil (fun _ => isWhitespace_of_mem_toDigits),
      splitOnce_eq_none (point_not_mem_toDigits _), Option.getD_none,
      satsOfParts_eq_ok (by simp) (by simp) ?_ fits, back]
    rw [List.nil_append, ofDigitChars_zeros, Nat.zero_mul, whole]
  · have dropped : ∀ symbol ∈ (paddedFraction (sats.toNat % coinSats)).rdropWhile (· == '0'),
        symbol.isDigit = true := fun symbol member =>
      isDigit_of_mem_paddedFraction ((List.rdropWhile_prefix _ _).subset member)
    have short := (List.rdropWhile_prefix (· == '0')
      (paddedFraction (sats.toNat % coinSats))).length_le
    rw [length_paddedFraction fracSmall] at short
    rw [if_neg whole, parseSats_eq (by simp), splitOnce_append (point_not_mem_toDigits _),
      Option.getD_some, satsOfParts_eq_ok dropped short ?_ fits, back]
    · rw [rdropWhile_append_zeros _ (length_paddedFraction fracSmall),
        ofDigitChars_paddedFraction]
    · intro symbol member
      rcases List.mem_append.mp member with digit | rest
      · exact isWhitespace_of_mem_toDigits digit
      · rcases List.mem_cons.mp rest with rfl | digit
        · decide
        · exact isWhitespace_of_isDigit (dropped symbol digit)

end Amounts

/-! ## Texts -/

def isUnreserved (byte : UInt8) : Bool :=
  (65 ≤ byte && byte ≤ 90) || (97 ≤ byte && byte ≤ 122) || (48 ≤ byte && byte ≤ 57) ||
    byte == 45 || byte == 95 || byte == 46 || byte == 126

/-- `u8 as char`. -/
def byteChar (byte : UInt8) : Char := Char.ofNat byte.toNat

def urlencode (text : String) : List Char :=
  (PercentEncoding.encode isUnreserved (stringBytes text)).map byteChar

def isContinuation (byte : UInt8) : Bool := 0x80 ≤ byte && byte ≤ 0xbf

/-- Whether two bytes begin the encoding of a character in three or four bytes. -/
def beginsLong (first second : UInt8) : Bool :=
  isContinuation second &&
    (first == 0xe0 && 0xa0 ≤ second || 0xe1 ≤ first && first ≤ 0xec ||
      first == 0xed && second ≤ 0x9f || 0xee ≤ first && first ≤ 0xef ||
      first == 0xf0 && 0x90 ≤ second || 0xf1 ≤ first && first ≤ 0xf3 ||
      first == 0xf4 && second ≤ 0x8f)

/-- How many bytes one replacement character stands for where no character is encoded. -/
def invalidLength : Bytes → Nat
  | first :: second :: rest =>
      if !beginsLong first second then 1
      else if 0xf0 ≤ first && rest.head?.any isContinuation then 3
      else 2
  | _ => 1

def lossyChars : Nat → Bytes → List Char
  | 0, _ => []
  | _ + 1, [] => []
  | steps + 1, bytes =>
      match bytes.toByteArray.utf8DecodeChar? 0 with
      | some symbol => symbol :: lossyChars steps (bytes.drop symbol.utf8Size)
      | none => Char.ofNat 0xfffd :: lossyChars steps (bytes.drop (invalidLength bytes))

/-- `String::from_utf8_lossy`. -/
def fromUtf8Lossy (bytes : Bytes) : String := String.ofList (lossyChars bytes.length bytes)

example : fromUtf8Lossy [0xe2, 0x82, 0x41, 0xff] =
    String.ofList [Char.ofNat 0xfffd, 'A', Char.ofNat 0xfffd] := by decide

def urldecode (text : List Char) : String :=
  fromUtf8Lossy (PercentEncoding.decode (stringBytes (String.ofList text)))

section Texts

theorem utf8EncodeChar_byteChar {byte : UInt8} (ascii : byte < 128) :
    String.utf8EncodeChar (byteChar byte) = [byte] := by
  have all : ∀ number : Fin 128,
      String.utf8EncodeChar (byteChar (UInt8.ofNat number)) = [UInt8.ofNat number] := by
    decide
  have here := all ⟨byte.toNat, UInt8.lt_iff_toNat_lt.mp ascii⟩
  rwa [UInt8.ofNat_toNat] at here

theorem stringBytes_map_byteChar {bytes : Bytes} (ascii : ∀ byte ∈ bytes, byte < 128) :
    stringBytes (String.ofList (bytes.map byteChar)) = bytes := by
  rw [stringBytes_ofList]
  induction bytes with
  | nil => rfl
  | cons byte bytes ih =>
      rw [List.map_cons, List.flatMap_cons, utf8EncodeChar_byteChar (ascii byte List.mem_cons_self),
        ih fun other member => ascii other (List.mem_cons_of_mem _ member)]
      rfl

/-- An encoded text is made of letters, digits, four marks and the percent sign. -/
def isEncoded (byte : UInt8) : Bool := isUnreserved byte || byte == 37

theorem isEncoded_of_mem_encode {byte : UInt8} {bytes : Bytes}
    (member : byte ∈ PercentEncoding.encode isUnreserved bytes) : isEncoded byte = true := by
  have hexDigits : ∀ digit : Fin 16, isUnreserved (PercentEncoding.hexDigit digit) = true := by
    decide
  rcases PercentEncoding.of_mem_encode member with plain | rfl | ⟨digit, small, rfl⟩
  · simp [isEncoded, plain]
  · rfl
  · simp [isEncoded, hexDigits ⟨digit, small⟩]

theorem ascii_of_isEncoded {byte : UInt8} (encoded : isEncoded byte = true) : byte < 128 := by
  have all : ∀ number : Fin 256, isEncoded (UInt8.ofNat number) = true →
      UInt8.ofNat number < 128 := by
    decide +kernel
  have here := all ⟨byte.toNat, byte.toNat_lt⟩
  simp only [UInt8.ofNat_toNat] at here
  exact here encoded

theorem byteChar_ne_of_isEncoded {byte : UInt8} (encoded : isEncoded byte = true) :
    byteChar byte ≠ '&' ∧ byteChar byte ≠ '=' ∧ byteChar byte ≠ '?' := by
  have all : ∀ number : Fin 256, isEncoded (UInt8.ofNat number) = true →
      byteChar (UInt8.ofNat number) ≠ '&' ∧ byteChar (UInt8.ofNat number) ≠ '=' ∧
        byteChar (UInt8.ofNat number) ≠ '?' := by
    decide +kernel
  have here := all ⟨byte.toNat, byte.toNat_lt⟩
  simp only [UInt8.ofNat_toNat] at here
  exact here encoded

theorem separator_not_mem_urlencode (text : String) :
    '&' ∉ urlencode text ∧ '=' ∉ urlencode text := by
  constructor <;>
  · intro member
    obtain ⟨byte, inside, same⟩ := List.mem_map.mp member
    have other := byteChar_ne_of_isEncoded (isEncoded_of_mem_encode inside)
    simp [same] at other

theorem lossyChars_encoded (text : List Char) {steps : Nat} (enough : text.length ≤ steps) :
    lossyChars steps (text.flatMap String.utf8EncodeChar) = text := by
  induction text generalizing steps with
  | nil => cases steps <;> rfl
  | cons symbol text ih =>
      obtain ⟨steps, rfl⟩ : ∃ fewer, steps = fewer + 1 :=
        Nat.exists_eq_add_one_of_ne_zero (by rintro rfl; simp at enough)
      have decoded : ((symbol :: text).flatMap String.utf8EncodeChar).toByteArray.utf8DecodeChar?
          0 = some symbol := List.utf8DecodeChar?_utf8Encode_cons
      have dropped : ((symbol :: text).flatMap String.utf8EncodeChar).drop symbol.utf8Size =
          text.flatMap String.utf8EncodeChar := by
        rw [List.flatMap_cons, ← String.length_utf8EncodeChar symbol, List.drop_left]
      have nonempty : (symbol :: text).flatMap String.utf8EncodeChar ≠ [] := by
        intro empty
        have positive := symbol.utf8Size_pos
        rw [← String.length_utf8EncodeChar] at positive
        simp only [List.flatMap_cons, List.append_eq_nil_iff] at empty
        rw [empty.1] at positive
        cases positive
      obtain ⟨first, rest, cut⟩ := List.exists_cons_of_ne_nil nonempty
      rw [cut] at decoded dropped ⊢
      rw [lossyChars, decoded]
      case x_2 => simp
      dsimp only
      rw [dropped, ih (by simpa using enough)]

theorem fromUtf8Lossy_stringBytes (text : String) : fromUtf8Lossy (stringBytes text) = text := by
  have long : ∀ text : List Char, text.length ≤ (text.flatMap String.utf8EncodeChar).length := by
    intro text
    induction text with
    | nil => exact le_rfl
    | cons symbol text ih =>
        have positive := symbol.utf8Size_pos
        rw [List.flatMap_cons, List.length_append, String.length_utf8EncodeChar,
          List.length_cons]
        omega
  have bytes := stringBytes_ofList text.toList
  rw [String.ofList_toList] at bytes
  rw [fromUtf8Lossy, bytes, lossyChars_encoded text.toList (long _), String.ofList_toList]

theorem urldecode_urlencode (text : String) : urldecode (urlencode text) = text := by
  rw [urldecode, urlencode, stringBytes_map_byteChar fun byte member =>
    ascii_of_isEncoded (isEncoded_of_mem_encode member),
    PercentEncoding.decode_encode (by decide), fromUtf8Lossy_stringBytes]

theorem of_mem_formatSats {sats : UInt64} {symbol : Char} (member : symbol ∈ formatSats sats) :
    symbol.isDigit = true ∨ symbol = '.' := by
  rw [formatSats] at member
  split at member
  · exact .inl (isDigit_of_mem_toDigits member)
  · rcases List.mem_append.mp member with digit | rest
    · exact .inl (isDigit_of_mem_toDigits digit)
    · rcases List.mem_cons.mp rest with rfl | digit
      · exact .inr rfl
      · exact .inl (isDigit_of_mem_paddedFraction ((List.rdropWhile_prefix _ _).subset digit))

theorem not_mem_formatSats {symbol : Char} (other : symbol.isDigit = false) (noPoint : symbol ≠ '.')
    (sats : UInt64) : symbol ∉ formatSats sats := by
  intro member
  rcases of_mem_formatSats member with digit | point
  · simp [other] at digit
  · exact noPoint point

theorem utf8Encode_of_isDigit {symbol : Char} (printed : symbol.isDigit = true ∨ symbol = '.') :
    37 ∉ String.utf8EncodeChar symbol := by
  have digits : ∀ number : Fin 10, 37 ∉ String.utf8EncodeChar (Char.ofNat (48 + number)) := by
    decide
  rcases printed with digit | rfl
  · simp only [Char.isDigit, ge_iff_le, Bool.and_eq_true, decide_eq_true_eq] at digit
    have low : 48 ≤ symbol.toNat := digit.1
    have high : symbol.toNat ≤ 57 := digit.2
    have here := digits ⟨symbol.toNat - 48, by omega⟩
    simp only [Nat.add_sub_cancel' low, Char.ofNat_toNat] at here
    exact here
  · decide

theorem urldecode_formatSats (sats : UInt64) :
    (urldecode (formatSats sats)).toList = formatSats sats := by
  have plain : 37 ∉ stringBytes (String.ofList (formatSats sats)) := by
    rw [stringBytes_ofList]
    intro member
    obtain ⟨symbol, inside, percent⟩ := List.mem_flatMap.mp member
    exact utf8Encode_of_isDigit (of_mem_formatSats inside) percent
  rw [urldecode, PercentEncoding.decode_eq_self plain, fromUtf8Lossy_stringBytes,
    String.toList_ofList]

end Texts

/-! ## URIs -/

def scheme : List Char := "vtorrent:".toList

namespace PaymentUri

section Model

variable (crypto : Crypto) (decodeBase58 : String → Option Bytes)

def param (key : String) (value : List Char) : List Char := key.toList ++ '=' :: value

def params (uri : PaymentUri) : List (List Char) :=
  (uri.amountSats.map fun sats => param "amount" (formatSats sats)).toList ++
    (uri.label.map fun text => param "label" (urlencode text)).toList ++
    (uri.message.map fun text => param "message" (urlencode text)).toList ++
    (uri.req.map fun text => param "req" (urlencode text)).toList

def build (uri : PaymentUri) : Except CoreError String := do
  let _ ← validateP2pkh crypto decodeBase58 uri.address
  let query := if uri.params = [] then [] else '?' :: ['&'].intercalate uri.params
  pure (String.ofList (scheme ++ uri.address.toList ++ query))

/-- Read the value of one parameter; unknown ones are ignored. -/
def readField (out : PaymentUri) (key : String) (value : String) :
    Except CoreError PaymentUri :=
  match key with
  | "amount" => do
      let sats ← parseSats value.toList
      pure { out with amountSats := some sats }
  | "label" => .ok { out with label := some value }
  | "message" => .ok { out with message := some value }
  | "req" => .ok { out with req := some value }
  | _ => .ok out

def readPair (out : PaymentUri) (pair : List Char) : Except CoreError PaymentUri :=
  if pair = [] then .ok out
  else
    let parts := (splitOnce '=' pair).getD (pair, [])
    readField out (String.ofList parts.1) (urldecode parts.2)

def parse (uri : String) : Except CoreError PaymentUri :=
  if scheme.isPrefixOf uri.toList then do
    let rest := uri.toList.drop scheme.length
    let parts := splitOnce '?' rest
    let address := String.ofList (parts.elim rest Prod.fst)
    let _ ← validateP2pkh crypto decodeBase58 address
    let out : PaymentUri := ⟨address, none, none, none, none⟩
    match parts with
    | none => pure out
    | some (_, query) => (query.splitOn '&').foldlM readPair out
  else .error (.invalidAddress ("not a " ++ String.ofList scheme ++ " URI"))

end Model

section RoundTrip

variable {crypto : Crypto} {decodeBase58 : String → Option Bytes}

theorem readPair_param (out : PaymentUri) {key : String} (plain : '=' ∉ key.toList)
    (value : List Char) :
    readPair out (param key value) = readField out key (urldecode value) := by
  rw [readPair, if_neg (by simp [param])]
  dsimp only
  rw [param, splitOnce_append plain, Option.getD_some, String.ofList_toList]

theorem foldlM_readPair_params (uri : PaymentUri) :
    uri.params.foldlM readPair ⟨uri.address, none, none, none, none⟩ = .ok uri := by
  have amount : ∀ (out : PaymentUri) (sats : UInt64),
      readPair out (param "amount" (formatSats sats)) =
        .ok { out with amountSats := some sats } := by
    intro out sats
    rw [readPair_param out (by decide), readField, urldecode_formatSats,
      parseSats_formatSats]
    rfl
  have texts : ∀ (out : PaymentUri) {key : String} (text : String), '=' ∉ key.toList →
      readPair out (param key (urlencode text)) = readField out key text := by
    intro out key text plain
    rw [readPair_param out plain, urldecode_urlencode]
  have label := fun out text => @texts out "label" text (by decide)
  have message := fun out text => @texts out "message" text (by decide)
  have req := fun out text => @texts out "req" text (by decide)
  obtain ⟨address, amountSats, labelText, messageText, reqText⟩ := uri
  cases amountSats <;> cases labelText <;> cases messageText <;> cases reqText <;>
    simp [params, amount, label, message, req, readField, Checked.ok_bind]

theorem ampersand_not_mem_params (uri : PaymentUri) : ∀ pair ∈ uri.params, '&' ∉ pair := by
  have amount : ∀ sats, '&' ∉ param "amount" (formatSats sats) := by
    intro sats
    simp [param, not_mem_formatSats]
  have texts : ∀ (key : String) (text : String), '&' ∉ key.toList →
      '&' ∉ param key (urlencode text) := by
    intro key text plain
    simp [param, plain, (separator_not_mem_urlencode text).1]
  intro pair member
  simp only [params, List.mem_append, Option.mem_toList,
    Option.map_eq_some_iff] at member
  rcases member with ((⟨sats, _, rfl⟩ | ⟨text, _, rfl⟩) | ⟨text, _, rfl⟩) | ⟨text, _, rfl⟩
  · exact amount sats
  · exact texts "label" text (by decide)
  · exact texts "message" text (by decide)
  · exact texts "req" text (by decide)

/-- The alphabet of the addresses: letters and digits but those that look alike. -/
def isBase58 (symbol : Char) : Bool :=
  symbol.isAlphanum && decide (symbol ∉ ['0', 'O', 'I', 'l'])

theorem parse_build_of_valid
    (alphabet : ∀ text bytes, decodeBase58 text = some bytes →
      ∀ symbol ∈ text.toList, isBase58 symbol = true)
    {uri : PaymentUri} {address : Address}
    (accepted : validateP2pkh crypto decodeBase58 uri.address = .ok address) :
    ∃ text, uri.build crypto decodeBase58 = .ok text ∧
      parse crypto decodeBase58 text = .ok uri := by
  have unmarked : '?' ∉ uri.address.toList := by
    intro member
    obtain ⟨parsed, decoded, _⟩ := Checked.bind_eq_ok.mp accepted
    rw [Address.parse] at decoded
    split at decoded
    · cases decoded
    · rename_i bytes found
      exact absurd (alphabet _ _ found '?' member) (by decide)
  have scheming : ∀ rest : List Char, scheme.isPrefixOf (scheme ++ rest) = true := by
    intro rest
    rw [List.isPrefixOf_iff_prefix]
    exact List.prefix_append _ _
  have dropped : ∀ rest : List Char, (scheme ++ rest).drop scheme.length = rest :=
    fun rest => List.drop_left
  refine ⟨_, Checked.bind_eq_ok.mpr ⟨address, accepted, rfl⟩, ?_⟩
  rw [parse, String.toList_ofList, List.append_assoc, if_pos (scheming _), dropped]
  by_cases none : uri.params = []
  · have empty := foldlM_readPair_params uri
    rw [none] at empty
    rw [if_pos none, List.append_nil]
    dsimp only
    rw [splitOnce_eq_none unmarked]
    dsimp only [Option.elim]
    rw [String.ofList_toList]
    refine Checked.bind_eq_ok.mpr ⟨address, accepted, empty⟩
  · rw [if_neg none]
    dsimp only
    rw [splitOnce_append unmarked]
    dsimp only [Option.elim]
    rw [String.ofList_toList]
    refine Checked.bind_eq_ok.mpr ⟨address, accepted, ?_⟩
    rw [List.splitOn_intercalate _ (ampersand_not_mem_params uri) none]
    exact foldlM_readPair_params uri

end RoundTrip

end PaymentUri

/-- A request with a valid address is read back from its URI, and every amount from its text. -/
theorem payment_uri_round_trip {crypto : Crypto} {decodeBase58 : String → Option Bytes}
    (alphabet : ∀ text bytes, decodeBase58 text = some bytes →
      ∀ symbol ∈ text.toList, PaymentUri.isBase58 symbol = true) :
    (∀ (uri : PaymentUri) (address : Address),
      validateP2pkh crypto decodeBase58 uri.address = .ok address →
      ∃ text, uri.build crypto decodeBase58 = .ok text ∧
        PaymentUri.parse crypto decodeBase58 text = .ok uri) ∧
    ∀ sats : UInt64, parseSats (formatSats sats) = .ok sats :=
  ⟨fun _ _ accepted => PaymentUri.parse_build_of_valid alphabet accepted,
    parseSats_formatSats⟩

namespace Requests

def decodeBase58 (text : String) : Option Bytes :=
  if text = "V1" then
    some (70 :: List.replicate 20 0 ++ Regtest.crypto.checksum (70 :: List.replicate 20 0))
  else none

theorem decodeBase58_alphabet : ∀ text bytes, decodeBase58 text = some bytes →
    ∀ symbol ∈ text.toList, PaymentUri.isBase58 symbol = true := by
  intro text bytes decoded
  rw [decodeBase58] at decoded
  split at decoded
  · rename_i same
    subst same
    clear decoded
    simp only [String.reduceToList, List.forall_mem_cons]
    exact ⟨by decide, by decide, by simp⟩
  · cases decoded

def rent : PaymentUri := ⟨"V1", some 150000000, some "Alice & Bob", some "100% ü", none⟩

end Requests

open Requests in
/-- A request whose texts need encoding. -/
theorem payment_uri_round_trip_rent :
    ∃ text, rent.build Regtest.crypto decodeBase58 = .ok text ∧
      PaymentUri.parse Regtest.crypto decodeBase58 text = .ok rent :=
  (payment_uri_round_trip decodeBase58_alphabet).1 rent
    ⟨List.Vector.replicate 20 0, 70⟩ (by decide +kernel)

end Vtorrent
