import Clipse.Core.Clip
import Clipse.Lib.Utf
import Mathlib.Data.List.Infix

/-!
# What must not be captured (`clipse-clipboard/src/sensitive/`)

The detectors of secrets (`secrets.rs`) and the list of blocked applications (`apps.rs`). The
regular expressions belong to another crate, so their engine is the parameter `Regex`; everything
that is decided beyond a match is modelled.
-/

namespace Clipse

/-- The `regex` crate: does a pattern match in a text, and what are its matches. -/
class Regex where
  isMatch : String → List Char → Bool
  findIter : String → List Char → List (List Char)

inductive SecretKind where
  | jwt | awsAccessKey | gitHubToken | slackToken | stripeKey | openAiKey | googleApiKey
  | privateKeyPem | creditCard
deriving DecidableEq

/-! ## Patterns -/

def jwtRe : String := "[A-Za-z0-9_-]\x7b10,\x7d\\.[A-Za-z0-9_-]\x7b10,\x7d\\.[A-Za-z0-9_-]\x7b10,\x7d"
def awsKeyRe : String := "\\bAKIA[0-9A-Z]\x7b16\x7d\\b"
def githubTokenRe : String :=
  "\\b(?:ghp|gho|ghs)_[A-Za-z0-9]\x7b36,\x7d\\b|\\bgithub_pat_[A-Za-z0-9_]\x7b22,\x7d\\b"
def slackTokenRe : String := "\\bxox[baprs]-[A-Za-z0-9-]\x7b10,\x7d\\b"
def stripeKeyRe : String := "\\b(?:sk|rk)_live_[A-Za-z0-9]\x7b16,\x7d\\b"
def openaiKeyRe : String := "\\bsk-[A-Za-z0-9_-]\x7b20,\x7d\\b"
def googleApiKeyRe : String := "\\bAIza[0-9A-Za-z_-]\x7b35\x7d\\b"
def pemHeaderRe : String := "-----BEGIN [A-Z ]*PRIVATE KEY-----"

/-! ## Tokens -/

/-- `base64url_value`. -/
def base64urlValue (c : UInt8) : Option UInt8 :=
  if 65 ≤ c && c ≤ 90 then some (c - 65)
  else if 97 ≤ c && c ≤ 122 then some (c - 97 + 26)
  else if 48 ≤ c && c ≤ 57 then some (c - 48 + 52)
  else if c = 45 then some 62
  else if c = 95 then some 63
  else none

/-- The loop of `base64url_decode`: the bytes so far, and the symbols not yet turned into any. -/
def base64urlLoop : Bytes → List UInt8 → Bytes → Option (Bytes × List UInt8)
  | out, chunk, [] => some (out, chunk)
  | out, chunk, b :: bytes =>
    match base64urlValue b with
    | none => none
    | some v =>
      match chunk ++ [v] with
      | [c0, c1, c2, c3] =>
        base64urlLoop
          (out ++ [c0 <<< 2 ||| c1 >>> 4, c1 <<< 4 ||| c2 >>> 2, c2 <<< 6 ||| c3]) [] bytes
      | chunk => base64urlLoop out chunk bytes

/-- `base64url_decode`: a single symbol that is left over is no byte. -/
def base64urlDecode (s : Bytes) : Option Bytes :=
  match base64urlLoop [] [] s with
  | none => none
  | some (out, chunk) =>
    match chunk with
    | [c0, c1] => some (out ++ [c0 <<< 2 ||| c1 >>> 4])
    | [c0, c1, c2] => some (out ++ [c0 <<< 2 ||| c1 >>> 4, c1 <<< 4 ||| c2 >>> 2])
    | [_] => none
    | _ => some out

/-! The same loop on the chunk of four bytes that it uses, with what Rust checks as it runs. -/

/-- What would stop the program. -/
inductive Base64Panic where
  | indexOutOfBounds
  | shiftOverflow
  | unreachable
deriving DecidableEq

/-- `chunk[i]`. -/
def chunkGet (chunk : Vector UInt8 4) (i : Nat) : Except Base64Panic UInt8 :=
  if h : i < 4 then .ok (chunk.get ⟨i, h⟩) else .error .indexOutOfBounds

/-- `chunk[i] = v`. -/
def chunkSet (chunk : Vector UInt8 4) (i : Nat) (v : UInt8) :
    Except Base64Panic (Vector UInt8 4) :=
  if h : i < 4 then .ok (chunk.set i v) else .error .indexOutOfBounds

/-- `v << n` on `u8`. -/
def shl (v : UInt8) (n : Nat) : Except Base64Panic UInt8 :=
  if n < 8 then .ok (v <<< UInt8.ofNat n) else .error .shiftOverflow

/-- `v >> n` on `u8`. -/
def shr (v : UInt8) (n : Nat) : Except Base64Panic UInt8 :=
  if n < 8 then .ok (v >>> UInt8.ofNat n) else .error .shiftOverflow

/-- `(chunk[i] << l) | (chunk[i + 1] >> r)`. -/
def chunkByte (chunk : Vector UInt8 4) (i l r : Nat) : Except Base64Panic UInt8 := do
  let high ← shl (← chunkGet chunk i) l
  let low ← shr (← chunkGet chunk (i + 1)) r
  return high ||| low

/-- The loop and the tail of `base64url_decode`, with `out`, `chunk` and `chunk_len`. -/
def base64urlRun : Bytes → Vector UInt8 4 → Nat → Bytes → Except Base64Panic (Option Bytes)
  | out, chunk, chunkLen, b :: bytes =>
    match base64urlValue b with
    | none => .ok none
    | some v => do
      let chunk ← chunkSet chunk chunkLen v
      let chunkLen := chunkLen + 1
      if chunkLen = 4 then
        let b0 ← chunkByte chunk 0 2 4
        let b1 ← chunkByte chunk 1 4 2
        let high ← shl (← chunkGet chunk 2) 6
        let low ← chunkGet chunk 3
        base64urlRun (out ++ [b0, b1, high ||| low]) chunk 0 bytes
      else base64urlRun out chunk chunkLen bytes
  | out, chunk, chunkLen, [] =>
    match chunkLen with
    | 0 => .ok (some out)
    | 1 => .ok none
    | 2 => do return some (out ++ [← chunkByte chunk 0 2 4])
    | 3 => do
      let b0 ← chunkByte chunk 0 2 4
      let b1 ← chunkByte chunk 1 4 2
      return some (out ++ [b0, b1])
    | _ => .error .unreachable

/-- `looks_like_jwt`. -/
def looksLikeJwt [Regex] (text : List Char) : Bool :=
  (Regex.findIter jwtRe text).any fun m =>
    let header := m.takeWhile (· ≠ '.')
    ((base64urlDecode (Utf.encode8 header)).bind fromUtf8).any fun s =>
      "\"alg\"".toList <:+: s.toList

/-! ## Card numbers -/

/-- `has_card_issuer_prefix`. -/
def hasCardIssuerPrefix (digits : List Char) : Bool :=
  let two := Nat.ofDigitChars 10 (digits.take 2) 0
  let four := if digits.length < 4 then 0 else Nat.ofDigitChars 10 (digits.take 4) 0
  digits.head? = some '4' || (51 ≤ two && two ≤ 55) || (2221 ≤ four && four ≤ 2720) ||
    (two = 34 || two = 37) || (two = 65 || four = 6011) || (644 ≤ four / 10 && four / 10 ≤ 649) ||
    two = 62 || two = 35 || (two = 30 || two = 36 || two = 38)

/-- The terms of the checksum, from the rightmost digit. -/
def luhnTerms (digits : List Char) : List Nat :=
  digits.reverse.mapIdx fun i ch =>
    let d := ch.toNat - 48
    if i % 2 = 1 then if 9 < d * 2 then d * 2 - 9 else d * 2 else d

/-- `luhn_valid`. -/
def luhnValid (digits : List Char) : Bool := (luhnTerms digits).sum % 10 = 0

/-- `flush_and_check` of one run. -/
def checkRun (run : List Char) : Bool :=
  let digits := run.filter Char.isDigit
  (13 ≤ digits.length && digits.length ≤ 19) && hasCardIssuerPrefix digits && luhnValid digits

/-- The loop of `contains_luhn_valid_card_number`, with the run so far. -/
def scanCards : List Char → List Char → Bool
  | run, [] => run ≠ [] && checkRun run
  | run, c :: text =>
    if c.isDigit || c = ' ' || c = '-' then scanCards (run ++ [c]) text
    else (run ≠ [] && checkRun run) || scanCards [] text

/-- `contains_luhn_valid_card_number`. -/
def containsLuhnValidCardNumber (text : List Char) : Bool := scanCards [] text

/-! ## Secrets -/

/-- `detect_secret`. -/
def detectSecret [Regex] (text : List Char) : Option SecretKind :=
  if Regex.isMatch pemHeaderRe text then some .privateKeyPem
  else if Regex.isMatch awsKeyRe text then some .awsAccessKey
  else if Regex.isMatch githubTokenRe text then some .gitHubToken
  else if Regex.isMatch slackTokenRe text then some .slackToken
  else if Regex.isMatch stripeKeyRe text then some .stripeKey
  else if Regex.isMatch openaiKeyRe text then some .openAiKey
  else if Regex.isMatch googleApiKeyRe text then some .googleApiKey
  else if looksLikeJwt text then some .jwt
  else if containsLuhnValidCardNumber text then some .creditCard
  else none

/-! ## Applications -/

/-- `normalize`: letters and digits of ASCII, in lower case. -/
def normalize (s : List Char) : List Char := (s.filter Char.isAlphanum).map Char.toLower

/-- `AppBlocklist`: the entries, normalised. -/
structure AppBlocklist where
  normalized : List (List Char)
deriving DecidableEq

namespace AppBlocklist

/-- `AppBlocklist::new`. -/
def new (entries : List String) : AppBlocklist := { normalized := entries.map (normalize ·.toList) }

/-- `DEFAULT_BLOCKED_APPS`, `AppBlocklist::defaults`. -/
def defaults : AppBlocklist :=
  new ["1Password", "Bitwarden", "KeePassXC", "LastPass", "Dashlane", "Proton Pass", "Keeper",
    "Enpass", "Keychain Access"]

/-- `AppBlocklist::is_blocked`. -/
def isBlocked (l : AppBlocklist) (appName : String) : Bool :=
  let app := normalize appName.toList
  app ≠ [] && l.normalized.any (· <:+: app)

end AppBlocklist
end Clipse
