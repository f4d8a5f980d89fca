import RegisterScheme.Host.Signature

/-! A sample host: a procedure for each kind of parameter and each way to take a tail. -/

namespace RegisterScheme.SampleHost

open Signature Parameter Allocating

private def symbol (s : String) : Value := .atom (.symbol s)

/-- The sum of integers, modulo the size of a word. -/
def wrappingSum (ns : List Int64) : Int64 := ns.foldl (· + ·) 0

def checkedDifference (m n : Int64) : Allocating Value :=
  match fixnum? (m.toInt - n.toInt) with
  | some d => return .integer d
  | none => raise (.raised "host overflow")

def procedures : List HostProcedure :=
  [.typed "host-zero" done (return .integer 42),
    .typed "host-half" (next number done) fun (x : Float) => return .float (x / 2.0),
    .typed "host-flip" (next boolean done) fun (b : Bool) => return .boolean (!b),
    .typed "host-code" (next character done) fun (c : Char) =>
      return .integer (Int64.ofNat c.toNat),
    .typed "host-chars" (next text done) fun (s : String) =>
      list (s.toList.map fun c => .atom (.character c)),
    .typed "host-dup" (next text done) fun (s : String) => return .atom (.string (s ++ s)),
    .typed "host-sub" (next integer (next integer done)) checkedDifference,
    .typed "host-pick" (next boolean (next value (next value done)))
      fun (b : Bool) (v w : Value) => return if b then v else w,
    .typed "host-quad" (next integer (next number (next character (next text done))))
      fun (n : Int64) (x : Float) (c : Char) (s : String) =>
        list [.atom (.string s), .atom (.character c), .float x, .integer n],
    .variadic "host-sum" .any (tail integer) fun (ns : List Int64) =>
      return .integer (wrappingSum ns),
    .variadic "host-weighted" .any (next integer (tail integer))
      fun (w : Int64) (ns : List Int64) => return .integer (wrappingSum (ns.map (w * ·))),
    .variadic "host-tag" (.between 2 4) (next text (next value (tail value)))
      fun (s : String) (v : Value) (rest : List Value) =>
        let count : Value := .integer (Int64.ofNat rest.length)
        list ([symbol s, v, count, .boolean rest.isEmpty] ++ rest),
    ⟨"host-reverse", .between 1 3, fun args => list args.reverse⟩]

end RegisterScheme.SampleHost
