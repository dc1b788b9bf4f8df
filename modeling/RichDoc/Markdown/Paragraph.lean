import RichDoc.Markdown.Table

/-! # Paragraphs

A paragraph goes on until a line interrupts it. Its first line may turn out to be the head of a table,
and an underline makes it a heading. -/

namespace RichDoc.Markdown

variable (s : Source) (path : List Container)

/-- The last token, less the white space at its end. -/
def trimLast (start : Nat) (ts : List Token) : List Token :=
  match ts.reverse with
  | t :: r => ({ t with stop := s.skipBack isSpace start t.stop } :: r).reverse
  | [] => []

/-- A paragraph at `start`, `first` while its first line is to be read; `ts` are the tokens so far. -/
def paragraphFrom (start : Nat) : Nat → Bool → Nat → List Token → LeafEnd
  | 0, _, i, ts => ⟨⟨start, i⟩, .paragraph ts, i⟩
  | fuel + 1, first, i, ts =>
    let line := lineTokens s path (if first then .head else .off) i
    let ts := ts ++ line.tokens
    let goOn (broken : Option Token) : LeafEnd :=
      let (l, inside) := enterLine s path line.next
      let (l, deep) := l.space 4
      let backslash := match broken with
        | some t => if t.body = .hardBreak true then [⟨t.start, t.start + 1, .text false⟩] else []
        | none => []
      let stop : LeafEnd := ⟨⟨start, line.next⟩, .paragraph (ts ++ backslash), line.next⟩
      match (if !deep && inside then underline? s l.pos else none) with
      | some (level, next) =>
        let text := if backslash.isEmpty then trimLast s start ts else ts ++ backslash
        ⟨⟨start, next⟩, .heading level text, next⟩
      | none =>
        if !deep && interrupts s path inside l.pos then stop
        else
          let l := l.allSpace
          if l.atLineEnd then stop
          else paragraphFrom start fuel false l.pos (ts ++ broken.toList)
    match line.stop with
    | .table alignments => table s path alignments i line.next
    | .lineBreak t => goOn (some t)
    | .none => goOn none

/-- The paragraph at `start`, after the tokens `ts`. -/
def paragraph (start : Nat) (ts : List Token) : LeafEnd :=
  paragraphFrom s path start (s.size + 1 - start) true start ts

/-- The heading of level `level` whose marks start at `start`. -/
def heading (start level : Nat) : LeafEnd :=
  let i := start + level
  match lineEnd? s i with
  | some next => ⟨⟨start, next⟩, .heading level [], next⟩
  | none =>
    let i := skipSpaces s i
    let line := lineTokens s path .off i
    let ts := match line.stop with
      | .lineBreak ⟨j, k, .hardBreak true⟩ => line.tokens ++ [(⟨j, k, .text false⟩ : Token)]
      | _ => line.tokens
    let limit := s.skipBack (fun b => Source.isLineEnd b || b == 32) i line.next
    let closer := s.skipBack (· == 35) i limit
    let stop := if closer = i then i
      else
        let j := s.skipBack (· == 32) i closer
        if j < closer then j else limit
    let text := match ts.reverse with
      | t :: r => (if stop = i then r else { t with stop } :: r).reverse
      | [] => []
    ⟨⟨start, line.next⟩, .heading level text, line.next⟩

end RichDoc.Markdown
