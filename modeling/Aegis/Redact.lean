import Aegis.LineScan
import Aegis.Value

namespace Aegis

open Regex Pattern

/-- `str.isalnum` on one character. -/
structure UnicodeTable where
  isAlnum : Char → Bool
  ascii : ∀ c, c.toNat < 128 → isAlnum c = c.isAlphanum

/-- The table for ASCII text. -/
def asciiTable : UnicodeTable := ⟨Char.isAlphanum, fun _ _ => rfl⟩

/-- `\w` -/
def UnicodeTable.isWord (table : UnicodeTable) (c : Char) : Bool := table.isAlnum c || c = '_'

def asciiWord (c : Char) : Bool := c.isAlphanum || c = '_'

theorem isWord_eq (table : UnicodeTable) {c : Char} (h : c.toNat < 128) :
    table.isWord c = asciiWord c := by
  rw [UnicodeTable.isWord, asciiWord, table.ascii c h]

/-- The letters outside ASCII that a case-insensitive pattern takes for an ASCII letter. -/
def foldsTo (c : Char) : Option Char :=
  if c.toNat = 0x130 || c.toNat = 0x131 then some 'i'
  else if c.toNat = 0x17f then some 's'
  else if c.toNat = 0x212a then some 'k'
  else none

def text (s : String) : Pattern := literal s.toList

/-- A text in lower case, matched whatever the case. -/
def caseless : List Char → Pattern
  | [] => empty
  | c :: rest => seq (one fun x => x.toLower = c || foldsTo x = some c) (caseless rest)

def char (c : Char) : Pattern := one fun x => x = c

def oneOf (chars : String) (c : Char) : Bool := chars.toList.contains c

def isUpperOrDigit (c : Char) : Bool := c.isUpper || c.isDigit

def isAlnumFolded (c : Char) : Bool := c.isAlphanum || (foldsTo c).isSome

/-- `(?:[A-Z]+ )?PRIVATE KEY-----` -/
def keyLabel : Pattern :=
  seq (optional (seq (greedy Char.isUpper 1) (char ' '))) (text "PRIVATE KEY-----")

def privateKey : Pattern :=
  all [text "-----BEGIN ", keyLabel, lazy (fun _ => true) 0, text "-----END ", keyLabel]

def awsAccessKey : Pattern :=
  all [boundary, alt (text "AKIA") (text "ASIA"), times 16 (one isUpperOrDigit), boundary]

def isJwtChar (c : Char) : Bool := c.isAlphanum || oneOf "_-" c

def jwt : Pattern :=
  all [boundary, text "eyJ", greedy isJwtChar 8, char '.', greedy isJwtChar 4, char '.',
    greedy isJwtChar 8, boundary]

def databaseUrl : Pattern :=
  all [boundary, caseless "postgres".toList, optional (caseless "ql".toList),
    optional (seq (char '+') (greedy isAlnumFolded 1)), text "://",
    greedy (fun c => !(isSpace c || oneOf ":/" c)) 1, char ':',
    greedy (fun c => !(isSpace c || oneOf "@/" c)) 1, char '@',
    greedy (fun c => !isSpace c) 1]

def isBearerChar (c : Char) : Bool := isAlnumFolded c || oneOf "._-+/=" c

def bearerToken : Pattern :=
  all [boundary, caseless "bearer".toList, greedy isSpace 1, greedy isBearerChar 8]

def slackToken : Pattern :=
  all [boundary, text "xox", one (oneOf "baprs"), char '-',
    greedy (fun c => c.isAlphanum || c = '-') 10]

def githubPat : Pattern :=
  all [boundary,
    alt (all [text "gh", one (oneOf "pousr"), char '_', greedy Char.isAlphanum 20])
      (all [text "github_pat_", greedy (fun c => c.isAlphanum || c = '_') 20]),
    boundary]

def email : Pattern :=
  all [boundary, greedy (fun c => c.isAlphanum || oneOf "._%+-" c) 1, char '@',
    greedy (fun c => c.isAlphanum || oneOf ".-" c) 1, char '.', greedy Char.isAlpha 2, boundary]

/-- `_PATTERNS`, in the order in which `redact` applies them. -/
def redactionPatterns : List (String × Pattern) :=
  [("private_key", privateKey), ("aws_access_key", awsAccessKey), ("jwt", jwt),
    ("database_url", databaseUrl), ("bearer_token", bearerToken), ("slack_token", slackToken),
    ("github_pat", githubPat), ("email", email)]

/-- `_token` -/
def redactionToken (kind : String) : List Char := ("[REDACTED:" ++ kind ++ "]").toList

/-- `pattern.sub` with the token of the kind, and the number of substitutions. -/
def substitute (table : UnicodeTable) (entry : String × Pattern) (state : List Char × Nat) :
    List Char × Nat :=
  let cut := pieces table.isWord entry.2 state.1
  (replaced (redactionToken entry.1) cut, state.2 + (hits cut).length)

/-- `redact` -/
def redact (table : UnicodeTable) (text : String) : RedactionResult :=
  if text = "" then ⟨text, 0⟩
  else
    let last := redactionPatterns.foldl (fun state entry => substitute table entry state)
      (text.toList, 0)
    ⟨String.ofList last.1, last.2⟩

end Aegis
