/-! # Source positions

A span covers the bytes from `start` up to, not including, `stop`, with the lines and columns of
both ends.  Lines and columns count from one and are 32-bit words.
-/

namespace ObjectLang.Source

/-- Where something starts and stops in a file that is known from the context. -/
structure Place where
  start : Nat
  stop : Nat
  line : Nat
  column : Nat
  deriving DecidableEq, Repr, Inhabited

structure Span where
  file : Nat
  start : Nat
  stop : Nat
  line : Nat
  column : Nat
  endLine : Nat
  endColumn : Nat
  deriving DecidableEq, Repr, Inhabited

namespace Span

/-- Columns are words of 32 bits. -/
def columnModulus : Nat := 0x100000000

def ofPlace (file : Nat) (p : Place) : Span where
  file := file
  start := p.start
  stop := p.stop
  line := p.line
  column := p.column
  endLine := p.line
  endColumn := (p.column + (p.stop - p.start)) % columnModulus

def merge (s t : Span) : Span :=
  { s with stop := t.stop, endLine := t.endLine, endColumn := t.endColumn }

/-- The number of bytes covered; a span that stops before it starts covers none. -/
def length (s : Span) : Nat := s.stop - s.start

def isEmpty (s : Span) : Bool := s.length == 0

end Span

end ObjectLang.Source
