/-
KubeDepod/Std.lean

The pieces of Rust's standard library, of `chrono` and of `kube` that the
operator's code computes with.

* `BTreeMap` and `BTreeSet` carry their key order as a field, so that equal
  maps are equal values and iteration is in key order.
* `DateTime` is an instant in nanoseconds since the epoch, within the range
  `chrono::DateTime<Utc>` can represent.
* `i64` and `i32` are `Int64` and `Int32` (arithmetic wraps, as in a release
  build); `u64` counters that are only compared, decremented when positive
  or overwritten are `Nat`.
-/
import Mathlib.Data.List.Basic

namespace KubeDepod

/-! ### Collections -/

/-- `BTreeMap<K, V>`: the entries in increasing order of the keys. -/
structure BTreeMap (κ ν : Type) [LT κ] where
  entries : List (κ × ν)
  sorted : entries.Pairwise fun a b => a.1 < b.1
deriving DecidableEq

namespace BTreeMap

variable {κ ν : Type} [LT κ]

def empty : BTreeMap κ ν := ⟨[], .nil⟩

def singleton (k : κ) (v : ν) : BTreeMap κ ν := ⟨[(k, v)], by simp⟩

def isEmpty (m : BTreeMap κ ν) : Bool := m.entries.isEmpty

def get [BEq κ] (m : BTreeMap κ ν) (k : κ) : Option ν := m.entries.lookup k

end BTreeMap

/-- `BTreeSet<T>`: the elements in increasing order. -/
structure BTreeSet (τ : Type) [LT τ] where
  elements : List τ
  sorted : elements.Pairwise (· < ·)
deriving DecidableEq

namespace BTreeSet

variable {τ : Type} [LT τ]

def singleton (a : τ) : BTreeSet τ := ⟨[a], by simp⟩

def isEmpty (s : BTreeSet τ) : Bool := s.elements.isEmpty

def contains [BEq τ] (s : BTreeSet τ) (a : τ) : Bool := s.elements.contains a

end BTreeSet

/-! ### Strings -/

/-- `char::is_whitespace`: the Unicode property `White_Space`. -/
def isWhitespace (c : Char) : Bool :=
  let n := c.toNat
  (9 ≤ n && n ≤ 13) || n == 0x20 || n == 0x85 || n == 0xA0 || n == 0x1680 ||
    (0x2000 ≤ n && n ≤ 0x200A) || n == 0x2028 || n == 0x2029 || n == 0x202F ||
    n == 0x205F || n == 0x3000

/-- `str::trim`. -/
def trim (s : String) : String :=
  String.ofList ((s.toList.dropWhile isWhitespace).reverse.dropWhile isWhitespace).reverse

/-- `str::eq_ignore_ascii_case`. -/
def eqIgnoreAsciiCase (s t : String) : Bool :=
  s.toList.map Char.toLower == t.toList.map Char.toLower

/-- `str::parse::<u16>`, `::<u64>` and `::<usize>`, for the type of the numbers
below `size`: one or more ASCII digits after an optional `+`. -/
def parseUnsigned (size : Nat) (s : String) : Option Nat :=
  let digits := match s.toList with
    | '+' :: digits => digits
    | digits => digits
  if digits.isEmpty || !digits.all Char.isDigit then
    none    -- an empty text or an invalid digit
  else
    let n := digits.foldl (fun n digit => n * 10 + (digit.toNat - '0'.toNat)) 0
    if n < size then some n else none    -- no overflow

/-! ### Time -/

/-- Nanoseconds in a second. -/
def nanosPerSecond : Int := 1000000000

/-- `chrono::DateTime<Utc>`, between `DateTime::MIN_UTC` and
`DateTime::MAX_UTC`. -/
structure DateTime where
  nanos : Int
  min_le : -8334601228800 * nanosPerSecond ≤ nanos
  lt_max : nanos < (8210266876799 + 1) * nanosPerSecond
deriving DecidableEq

/-- `DateTime::UNIX_EPOCH`. -/
def DateTime.unixEpoch : DateTime := ⟨0, by decide, by decide⟩

/-- `chrono::TimeDelta`. -/
structure TimeDelta where
  nanos : Int
deriving DecidableEq

/-- The difference of two instants. -/
def DateTime.sub (a b : DateTime) : TimeDelta := ⟨a.nanos - b.nanos⟩

/-- `TimeDelta::num_seconds`: whole seconds, truncated towards zero. -/
def TimeDelta.numSeconds (d : TimeDelta) : Int64 := Int64.ofInt (d.nanos.tdiv nanosPerSecond)

/-- `DateTime::timestamp`: whole seconds since the epoch, rounded down. -/
def DateTime.timestamp (t : DateTime) : Int64 := Int64.ofInt (t.nanos / nanosPerSecond)

/-- `std::time::Duration`. -/
structure Duration where
  nanos : Nat
deriving DecidableEq

/-- `Duration::from_secs`. -/
def Duration.fromSecs (s : Nat) : Duration := ⟨s * 1000000000⟩

/-! ### Errors and actions -/

/-- `crate::Error`; errors of the libraries are represented by their text. -/
inductive Error where
  | kubeError (message : String)
  | serdeError (message : String)
  | celCompilationError (message : String)
  | celEvaluationError (message : String)
  | validationError (message : String)
  | custom (message : String)
deriving DecidableEq

/-- The texts of the `#[error(..)]` attributes. -/
def Error.toString : Error → String
  | .kubeError e => "Kubernetes error: " ++ e
  | .serdeError e => "Serialization error: " ++ e
  | .celCompilationError e => "CEL compilation error: " ++ e
  | .celEvaluationError e => "CEL evaluation error: " ++ e
  | .validationError e => "CRD validation error: " ++ e
  | .custom e => "Custom error: " ++ e

/-- `kube::runtime::controller::Action`. -/
inductive Action where
  | requeue (delay : Duration)
  | awaitChange
deriving DecidableEq

end KubeDepod
