/-! # Interned names

A symbol table numbers distinct texts in the order in which they first arrive.
-/

namespace ObjectLang.Source

structure SymbolTable where
  texts : Array String := #[]
  deriving Repr, Inhabited

namespace SymbolTable

def lookup (t : SymbolTable) (text : String) : Option Nat := t.texts.idxOf? text

/-- The number of `text`, taking the next free one when it is new. -/
def intern (t : SymbolTable) (text : String) : Nat × SymbolTable :=
  match t.lookup text with
  | some k => (k, t)
  | none => (t.texts.size, ⟨t.texts.push text⟩)

def resolve? (t : SymbolTable) (k : Nat) : Option String := t.texts[k]?

def join? (t : SymbolTable) (ks : List Nat) : Option String :=
  (ks.mapM t.resolve?).map (String.intercalate ".")

def size (t : SymbolTable) : Nat := t.texts.size

end SymbolTable

end ObjectLang.Source
