import RowStore.Ident

/-!
# Fingerprints

A 32-bit number for the names of a path.

What is summed up is the bytes of the names in a row, with nothing between them,
and then one word that tells how they are divided: for each name its length is
added to the word, which is then turned by two bits. The word does not tell all
divisions of the same bytes apart. Names of 4, 7 and 5 bytes give the same word
as names of 8, 2 and 6, so that two such paths with the same bytes have one
fingerprint.

The sum is SipHash with one round for each word and three at the end, keyed by
zeros. Of its 64 bits the low half is the fingerprint.

## Main definitions

* `Sip`: The four words that are mixed.
* `Sip.sum`: The sum of a run of bytes.
* `division`: How bytes are divided among names.
* `fingerprint`: The number for some names.
-/

namespace RowStore

/-- Turn a word to the left. -/
def turnLeft (w : UInt64) (bits : UInt64) : UInt64 := w <<< bits ||| w >>> (64 - bits)

/-- The four words that are mixed. -/
structure Sip where
  a : UInt64
  b : UInt64
  c : UInt64
  d : UInt64
  deriving DecidableEq, Repr

namespace Sip

/-- The words before anything was taken in, for a key of zeros. -/
def start : Sip :=
  ⟨0x736f6d6570736575, 0x646f72616e646f6d, 0x6c7967656e657261, 0x7465646279746573⟩

/-- Mix the words once. -/
def round (s : Sip) : Sip :=
  let a := s.a + s.b
  let c := s.c + s.d
  let b := turnLeft s.b 13 ^^^ a
  let d := turnLeft s.d 16 ^^^ c
  let a := turnLeft a 32 + d
  let c := c + b
  ⟨a, turnLeft b 17 ^^^ c, turnLeft c 32, turnLeft d 21 ^^^ a⟩

/-- Take in a word. -/
def absorb (s : Sip) (w : UInt64) : Sip :=
  let mixed := { s with d := s.d ^^^ w }.round
  { mixed with a := mixed.a ^^^ w }

/-- What the words come to in the end. -/
def result (s : Sip) : UInt64 :=
  let mixed := { s with c := s.c ^^^ 0xff }.round.round.round
  mixed.a ^^^ mixed.b ^^^ mixed.c ^^^ mixed.d

/-- A word from its bytes, lowest first. -/
def wordOf (bytes : List UInt8) : UInt64 :=
  bytes.foldr (fun byte w => w <<< 8 ||| byte.toUInt64) 0

/-- The bytes of a word, lowest first. -/
def bytesOf (w : UInt64) : List UInt8 :=
  (List.range 8).map fun i => (w >>> (8 * UInt64.ofNat i)).toUInt8

/-- A run of bytes as words. The last word has the bytes that are left and, as its highest byte,
    the length of the whole run. -/
def words (length : Nat) : List UInt8 → List UInt64
  | i :: j :: k :: l :: m :: n :: o :: p :: rest =>
    wordOf [i, j, k, l, m, n, o, p] :: words length rest
  | tail => [wordOf tail ||| UInt64.ofNat length <<< 56]

/-- The sum of a run of bytes. -/
def sum (bytes : List UInt8) : UInt64 := ((words bytes.length bytes).foldl absorb start).result

end Sip

/-- How bytes are divided among names. -/
def division (names : List String) : UInt64 :=
  names.foldl (fun w name => turnLeft (w + UInt64.ofNat name.utf8ByteSize) 62) 0

/-- The bytes of some names in a row. -/
def joinedBytes (names : List String) : List UInt8 :=
  names.flatMap fun name => name.toUTF8.data.toList

/-- A number for some names. -/
def fingerprint (names : List String) : TableId :=
  ⟨(Sip.sum (joinedBytes names ++ Sip.bytesOf (division names))).toNat % UInt32.size⟩

end RowStore
