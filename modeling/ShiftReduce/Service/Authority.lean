import ShiftReduce.Text.AsciiForm
import ShiftReduce.Text.Hex

/-!
# Authorities

The authority of a URL reference is a host, perhaps with a user in front, set off by an at sign,
and perhaps with a number behind, set off by a colon. Hosts are written in ASCII: the labels
between the dots of a host are replaced by their ASCII forms. A label that has none is encoded,
which a mark in front of it shows.

A server goes by the text of its authority in front of the first colon, which is a name only if
its labels are neither empty nor too long.
-/

namespace ShiftReduce.Service

/-- The parts of the authority of a URL reference. -/
structure Authority where
  /-- The user, with the password, if there is one, behind a colon. -/
  user : Option (List Char)
  /-- The host, empty if there is none. -/
  host : List Char
  /-- The number behind the host, empty if there is none. -/
  number : List Char
deriving DecidableEq

/-! ### Hosts -/

/-- The host with small letters, in front of the first percent sign if there is one. -/
def lowerHost (host : List Char) : List Char :=
  (host.takeWhile (· ≠ '%')).map Char.toLower ++ host.dropWhile (· ≠ '%')

/-- Whether the character is a dot between labels. -/
def isDot (c : Char) : Bool :=
  decide (c ∈ ['.', '\u3002', '\uff0e', '\uff61'])

/-- The labels of a host. -/
def labels (host : List Char) : List (List Char) :=
  host.splitOnP isDot

/-- A label in ASCII. The encoding of a label without an ASCII form begins with the mark and the
characters that have one. What stands for the others is left out, since no path that names a
resource holds such a label. -/
def asciiLabel (label : List Char) : List Char :=
  if label.all Text.isAscii then label
  else
    let known := label.flatMap fun c => (Text.asciiForm? c).getD []
    if label.all fun c => (Text.asciiForm? c).isSome then known else "xn--".toList ++ known ++ ['-']

/-- A host in ASCII. -/
def asciiHost (host : List Char) : List Char :=
  let host := lowerHost host
  if host.all Text.isAscii then host else ['.'].intercalate ((labels host).map asciiLabel)

/-- Whether a text is a name for a server: no label is empty, the last one aside, and each has
fewer than 64 characters. -/
def isServerName (name : List Char) : Bool :=
  (labels name).dropLast.all (!·.isEmpty) && (labels name).all (·.length < 64)

/-! ### Escapes -/

/-- Whether the character may stand for itself in a user. -/
def isUserChar (c : Char) : Bool :=
  c.isAlphanum || decide (c ∈ "_.-~%!$&'()*+,;=:".toList)

/-- The escapes of the bytes of a character: a percent sign and two hexadecimal digits each. -/
def escape (c : Char) : List Char :=
  c.toString.toUTF8.toList.flatMap fun b => '%' :: Text.hexDigits 2 b.toNat

namespace Authority

/-- The parts of an authority. The user ends at the last at sign and the host at the next
colon. -/
def read (s : List Char) : Authority :=
  let back := s.reverse
  let place := (back.takeWhile (· ≠ '@')).reverse
  { user := if '@' ∈ s then some ((back.dropWhile (· ≠ '@')).drop 1).reverse else none
    host := place.takeWhile (· ≠ ':')
    number := (place.dropWhile (· ≠ ':')).drop 1 }

/-- The authority with its user as it is and its host in ASCII. -/
def write (a : Authority) : List Char :=
  ((a.user.map (· ++ ['@'])).getD [])
    ++ asciiHost a.host
    ++ (if a.number.isEmpty then [] else ':' :: a.number)

/-- The name that the server of an authority goes by. -/
def serverName (a : Authority) : List Char :=
  let user := a.user.map fun user => user.flatMap fun c => if isUserChar c then [c] else escape c
  ({ a with user }.write).takeWhile (· ≠ ':')

end Authority

end ShiftReduce.Service
