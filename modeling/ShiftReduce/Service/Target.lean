import ShiftReduce.Service.Authority

/-!
# Request targets

A request names its target by a URL reference: a scheme, an authority, a path and a query, of
which only the path must be there. Control characters and spaces in front of a reference and tabs
and line breaks anywhere in it do not count, nor does a fragment at its end.

The path of a reference can look like a reference again, because it begins with two slashes or
with a name and a colon. The target is found in three rounds, each of which takes the path of the
round before as a reference. What the last round takes off is part of the path after all. Then
escapes are undone and the slashes in front are dropped.
-/

namespace ShiftReduce.Service

/-! ### References -/

/-- The parts of a URL reference. -/
structure Reference where
  /-- The scheme in lower case, empty if there is none. -/
  scheme : List Char
  /-- The authority, empty if there is none. -/
  authority : List Char
  /-- The path. -/
  path : List Char
  /-- The query, empty if there is none. -/
  query : List Char
deriving DecidableEq

namespace Reference

/-- The text without what does not count in a reference. -/
def clean (s : List Char) : List Char :=
  (s.dropWhile (· ≤ ' ')).filter fun c => c ∉ ['\t', '\n', '\r']

/-- Whether a scheme may hold the character. -/
def isSchemeChar (c : Char) : Bool :=
  c.isAlphanum || decide (c ∈ ['+', '-', '.'])

/-- The scheme in front of a text, and the text behind its colon. -/
def splitScheme (s : List Char) : List Char × List Char :=
  match s.takeWhile (· ≠ ':'), s.dropWhile (· ≠ ':') with
  | c :: name, _ :: rest =>
    if c.isAlpha && name.all isSchemeChar then ((c :: name).map Char.toLower, rest) else ([], s)
  | _, _ => ([], s)

/-- The authority in front of a text, which two slashes announce, and the text behind it. -/
def splitAuthority : List Char → List Char × List Char
  | '/' :: '/' :: s => s.span fun c => c ∉ ['/', '?', '#']
  | s => ([], s)

/-- The parts of a text that is a reference. -/
def read (s : List Char) : Reference :=
  let (scheme, s) := splitScheme (clean s)
  let (authority, s) := splitAuthority s
  let s := s.takeWhile (· ≠ '#')
  { scheme
    authority
    path := s.takeWhile (· ≠ '?')
    query := (s.dropWhile (· ≠ '?')).drop 1 }

/-- The path with the query behind it, if there is one. -/
def pathAndQuery (r : Reference) : List Char :=
  r.path ++ (if r.query.isEmpty then [] else '?' :: r.query)

/-- The path with scheme and authority in front of it, if there are any. -/
def location (r : Reference) : List Char :=
  (if r.scheme.isEmpty then [] else r.scheme ++ [':'])
    ++ (if r.authority.isEmpty then [] else '/' :: '/' :: (Authority.read r.authority).write)
    ++ r.path

end Reference

/-- The text with its escapes undone, a percent sign and two hexadecimal digits each. An escape
gives a byte, which is kept as the character of that number. -/
def undoEscapes : List Char → List Char
  | '%' :: a :: b :: rest =>
    match Text.hexDigit? a, Text.hexDigit? b with
    | some high, some low => Char.ofNat (high * 16 + low) :: undoEscapes rest
    | _, _ => '%' :: undoEscapes (a :: b :: rest)
  | c :: rest => c :: undoEscapes rest
  | [] => []

/-! ### Targets -/

/-- What a request is directed at. -/
structure Target where
  /-- Whether there is a server of the name that the authority gives. -/
  hasServer : Bool
  /-- Whether the scheme asks for a socket to talk over and not for a response. -/
  wantsSocket : Bool
  /-- The path without slashes in front. -/
  path : List Char
deriving DecidableEq

/-- The target that a URL reference names. -/
def Target.read (s : String) : Target :=
  let first := Reference.read s.toList
  let second := Reference.read first.pathAndQuery
  let third := Reference.read second.path
  { hasServer := isServerName (Authority.read first.authority).serverName
    wantsSocket := ["ws".toList, "wss".toList].contains first.scheme
    path := (undoEscapes third.location).dropWhile (· = '/') }

example : Target.read "http://host//x/a%2Db?q#f" = ⟨true, false, "a-b".toList⟩ := by
  decide +kernel

example : Target.read "//x//y//Ａ-B:" = ⟨true, false, "a-b".toList⟩ := by decide +kernel

end ShiftReduce.Service
