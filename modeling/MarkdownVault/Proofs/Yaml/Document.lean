import MarkdownVault.Proofs.Result
import MarkdownVault.Proofs.Value.Plain

/-!
# Documents

How values are written as documents and read from them, as far as what stands above relies on it.
-/

namespace MarkdownVault.Yaml

variable {reading : Reading} {text : String} {ts : List Token}

/-- Scanning the characters of a text spares an evaluation the encoding of the text. -/
theorem tokens_of_chars {cs : List Char} (htext : text = String.ofList cs)
    (hscan : (Token.ofText reading cs).toOption = some ts) :
    Token.ofText reading text.toList = .ok ts := by
  rw [htext, String.toList_ofList]
  exact eq_ok_of_toOption hscan

theorem valueOf_of_tokens {n : Node}
    (htokens : Token.ofText reading text.toList = .ok ts)
    (hnode : Node.ofTokens ts = .ok (some n)) :
    valueOf reading text = n.value := by
  simp only [valueOf, Node.ofText, htokens, bind, Except.bind, hnode]

theorem finiteValueOf_eq_ok_iff {v : Value} :
    finiteValueOf reading text = .ok v ↔ valueOf reading text = .ok v ∧ v.isFinite := by
  rw [finiteValueOf]
  split
  case h_1 w hw =>
    rw [hw]
    split
    case isTrue hfinite =>
      constructor
      · rintro ⟨⟩
        exact ⟨rfl, hfinite⟩
      · rintro ⟨⟨⟩, -⟩
        rfl
    case isFalse hinfinite =>
      constructor
      · rintro ⟨⟩
      · rintro ⟨⟨⟩, hfinite⟩
        exact absurd hfinite hinfinite
  case h_2 fault hfault => simp [hfault]

/-- What is relied on where a mapping of plain data is written as a document: the document reads as
the mapping. -/
def Faithful (entries : List (Value × Value)) : Prop :=
  (Value.map entries).isPlain → valueOf .strict (documentText entries) = .ok (.map entries)

theorem Faithful.finiteValueOf {entries : List (Value × Value)} (h : Faithful entries)
    (hplain : (Value.map entries).isPlain) :
    finiteValueOf .strict (documentText entries) = .ok (.map entries) :=
  finiteValueOf_eq_ok_iff.2 ⟨h hplain, Value.isFinite_of_isPlain _ hplain⟩

end MarkdownVault.Yaml
