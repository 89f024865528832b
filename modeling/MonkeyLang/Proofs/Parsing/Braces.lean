import MonkeyLang.Proofs.Parsing.Concatenation

/-!
# Blocks and their braces

In balanced text every opening brace has one that closes it (`Balanced.exists_close`).  A block is
read from an opening brace on, whatever is wrong with its statements, and it ends at a closing brace.
But recovery from a malformed statement takes no account of braces, so this need not be the brace that
closes it.  At least it is none behind that one (`Parser.exists_block_within`).

The invariant is that in front of the brace that closes the block, at least as many closing braces are
left as blocks are open inside (`Within`).  All constructs keep it, since it makes a `Seam` of the text
with itself (`Seam.lawful_within`).
-/

set_option autoImplicit false

namespace MonkeyLang

/-! ## Counting braces -/

/-- How many more blocks some tokens close than they open. -/
def surplus (tokens : List Token) : Int :=
  closed tokens - opened tokens

/-- Whether a token of the kind opens or closes a block. -/
@[simp] def TokenKind.isBrace : TokenKind → Bool
  | lbrace | rbrace => true
  | _ => false

theorem TokenKind.eq_of_isBrace {kind : TokenKind} (h : kind.isBrace = true) :
    kind = .lbrace ∨ kind = .rbrace := by
  cases kind <;> first | exact .inl rfl | exact .inr rfl | cases h

variable {tokens : List Token} {token : Token}

@[simp] theorem surplus_nil : surplus [] = 0 := rfl

theorem surplus_append (first second : List Token) :
    surplus (first ++ second) = surplus first + surplus second := by
  rw [surplus, surplus, surplus, closed, opened, List.countP_append, List.countP_append]
  simp only [closed, opened]
  omega

theorem surplus_lbrace (h : token.kind = .lbrace) (rest : List Token) :
    surplus (token :: rest) = surplus rest - 1 := by
  rw [surplus, surplus, Enclosed.opened_cons, Enclosed.closed_cons, h]
  simp
  omega

theorem surplus_rbrace (h : token.kind = .rbrace) (rest : List Token) :
    surplus (token :: rest) = surplus rest + 1 := by
  rw [surplus, surplus, Enclosed.opened_cons, Enclosed.closed_cons, h]
  simp
  omega

theorem surplus_cons (h : token.kind.isBrace = false) (rest : List Token) :
    surplus (token :: rest) = surplus rest := by
  have hne : token.kind ≠ .lbrace ∧ token.kind ≠ .rbrace := by
    constructor <;>
    · intro hkind
      simp [hkind] at h
  rw [surplus, surplus, Enclosed.opened_cons, Enclosed.closed_cons, if_neg hne.1, if_neg hne.2]
  rfl

theorem surplus_tail (h : ∀ token ∈ tokens.head?, token.kind.isBrace = false) :
    surplus tokens.tail = surplus tokens := by
  cases tokens with
  | nil => rfl
  | cons first rest => exact (surplus_cons (h first rfl) rest).symm

/-- Only a closing brace takes one from the surplus. -/
theorem surplus_le_cons (h : token.kind ≠ .rbrace) (rest : List Token) :
    surplus (token :: rest) ≤ surplus rest := by
  cases hbrace : token.kind.isBrace with
  | false => exact Int.le_of_eq (surplus_cons hbrace rest)
  | true =>
    rw [surplus_lbrace ((TokenKind.eq_of_isBrace hbrace).resolve_right h)]
    omega

theorem surplus_le_dropWhile {skip : Token → Bool}
    (h : ∀ token, skip token = true → token.kind ≠ .rbrace) :
    ∀ tokens : List Token, surplus tokens ≤ surplus (tokens.dropWhile skip)
  | [] => Int.le_refl _
  | first :: rest => by
    rw [List.dropWhile_cons]
    split
    · rename_i hskip
      exact Int.le_trans (surplus_le_cons (h first hskip) rest) (surplus_le_dropWhile h rest)
    · exact Int.le_refl _

theorem surplus_nonneg (h : ∀ token ∈ tokens, token.kind ≠ .lbrace) : 0 ≤ surplus tokens := by
  have hnone : opened tokens = 0 := by
    rw [opened, List.countP_eq_zero]
    intro token htoken
    simpa using h token htoken
  rw [surplus, hnone]
  omega

/-- Tokens that close more blocks than are open have the brace that closes the outermost one. -/
theorem exists_close : ∀ (tokens : List Token) (blocks : Nat), (blocks : Int) < surplus tokens →
    ∃ inside close behind, tokens = inside ++ close :: behind ∧ close.kind = .rbrace ∧
      surplus inside = blocks ∧ ∀ front, front <+: inside → surplus front ≤ blocks
  | [], blocks, h => by
    rw [surplus_nil] at h
    omega
  | first :: rest, blocks, h => by
    have goOn (blocks' : Nat) (step : Int) (hfirst : ∀ others, surplus (first :: others) =
        surplus others + step) (hblocks : (blocks : Int) = blocks' + step) :
        ∃ inside close behind, first :: rest = inside ++ close :: behind ∧ close.kind = .rbrace ∧
          surplus inside = blocks ∧ ∀ front, front <+: inside → surplus front ≤ blocks := by
      rw [hfirst] at h
      obtain ⟨inside, close, behind, rfl, hclose, hwhole, hfront⟩ :=
        exists_close rest blocks' (by omega)
      refine ⟨first :: inside, close, behind, rfl, hclose, by rw [hfirst]; omega, fun front h => ?_⟩
      rcases List.prefix_cons_iff.1 h with rfl | ⟨others, rfl, hothers⟩
      · exact Int.natCast_nonneg blocks
      · have hle := hfront others hothers
        rw [hfirst]
        omega
    cases hbrace : first.kind.isBrace with
    | false => exact goOn blocks 0 (fun others => by rw [surplus_cons hbrace, Int.add_zero]) (by simp)
    | true =>
      rcases TokenKind.eq_of_isBrace hbrace with hkind | hkind
      · exact goOn (blocks + 1) (-1) (surplus_lbrace hkind) (by omega)
      · cases blocks with
        | zero =>
          refine ⟨[], first, rest, rfl, hkind, rfl, fun front h => ?_⟩
          rw [List.prefix_nil.1 h]
          exact Int.le_refl _
        | succ blocks => exact goOn blocks 1 (surplus_rbrace hkind) (by omega)

theorem balanced_iff_surplus : Balanced tokens ↔
    surplus tokens = 0 ∧ ∀ front, front <+: tokens → surplus front ≤ 0 := by
  constructor
  · intro h
    have hwhole := h.whole
    refine ⟨by rw [surplus]; omega, fun front hprefix => ?_⟩
    have hfront := h.front front hprefix
    rw [surplus]
    omega
  · rintro ⟨hwhole, hfront⟩
    refine ⟨fun front hprefix => ?_, ?_⟩
    · have hle := hfront front hprefix
      rw [surplus] at hle
      omega
    · rw [surplus] at hwhole
      omega

/-- In balanced tokens every opening brace has one that closes it, and what is between the two is
balanced. -/
theorem Balanced.exists_close {front rest : List Token} {brace : Token}
    (h : Balanced (front ++ brace :: rest)) (hbrace : brace.kind = .lbrace) :
    ∃ inside close behind, rest = inside ++ close :: behind ∧ close.kind = .rbrace ∧
      Balanced inside := by
  obtain ⟨hwhole, hprefix⟩ := balanced_iff_surplus.1 h
  have hfront := hprefix front (List.prefix_append _ _)
  rw [surplus_append, surplus_lbrace hbrace] at hwhole
  obtain ⟨inside, close, behind, hrest, hclose, hinside, hinner⟩ := MonkeyLang.exists_close rest 0 (by
    show (0 : Int) < surplus rest
    omega)
  exact ⟨inside, close, behind, hrest, hclose, balanced_iff_surplus.2 ⟨hinside, hinner⟩⟩

/-- The beginning of balanced tokens that ends at a closing brace opens more blocks than it closes. -/
theorem Balanced.rest_eq_nil {skipped inner : List Token} (h : Balanced (skipped ++ inner))
    (hfirst : ∀ token ∈ inner.head?, token.kind = .rbrace) (hlevel : 0 ≤ surplus skipped) :
    inner = [] := by
  cases inner with
  | nil => rfl
  | cons first rest =>
    have hfront := (balanced_iff_surplus.1 h).2 (skipped ++ [first]) ⟨rest, by simp⟩
    rw [surplus_append, surplus_rbrace (hfirst first rfl), surplus_nil] at hfront
    omega

/-! ## Staying in front of a closing brace -/

/-- The tokens go on to a certain closing brace, and in front of it they close at least as many blocks as
are open. -/
def Within (close : Token) (behind : List Token) (blocks : Nat) (tokens : List Token) : Prop :=
  ∃ inner, tokens = inner ++ close :: behind ∧ (∀ token ∈ inner, token.kind ≠ .eof) ∧
    (blocks : Int) ≤ surplus inner

namespace Within

variable {close first : Token} {behind rest : List Token} {blocks blocks' : Nat}

theorem mono (h : Within close behind blocks tokens) (hle : blocks' ≤ blocks) :
    Within close behind blocks' tokens := by
  obtain ⟨inner, htokens, hproper, henough⟩ := h
  exact ⟨inner, htokens, hproper, by omega⟩

/-- The first token is inside, or it is the closing brace itself, and then no block is open. -/
theorem cases_cons (h : Within close behind blocks (first :: rest)) :
    (first = close ∧ rest = behind ∧ blocks = 0) ∨
      first.kind ≠ .eof ∧ ∃ inner, rest = inner ++ close :: behind ∧
        (∀ token ∈ inner, token.kind ≠ .eof) ∧ (blocks : Int) ≤ surplus (first :: inner) := by
  obtain ⟨inner, htokens, hproper, henough⟩ := h
  cases inner with
  | nil =>
    rw [surplus_nil] at henough
    obtain ⟨hfirst, hrest⟩ := List.cons.inj htokens
    exact .inl ⟨hfirst, hrest, by omega⟩
  | cons second others =>
    obtain ⟨rfl, rfl⟩ := List.cons.inj htokens
    exact .inr ⟨hproper first List.mem_cons_self, others, rfl,
      fun token htoken => hproper token (List.mem_cons_of_mem _ htoken), henough⟩

variable (hclose : close.kind = .rbrace)
include hclose

/-- The end of the text is not reached. -/
theorem current_ne_eof {window : TokenStream} (h : Within close behind blocks window.ahead) :
    window.current.kind ≠ .eof := by
  obtain ⟨inner, htokens, hproper, -⟩ := h
  rw [TokenStream.current, htokens]
  cases inner with
  | nil =>
    rw [List.nil_append, List.headD_cons, hclose]
    decide
  | cons first others => exact hproper first List.mem_cons_self

theorem pass (h : Within close behind blocks (first :: rest)) (hkind : first.kind ≠ .rbrace) :
    Within close behind blocks rest := by
  rcases h.cases_cons with ⟨rfl, -⟩ | ⟨-, inner, hrest, hproper, henough⟩
  · exact absurd hclose hkind
  · exact ⟨inner, hrest, hproper, Int.le_trans henough (surplus_le_cons hkind inner)⟩

theorem enter (h : Within close behind blocks (first :: rest)) (hkind : first.kind = .lbrace) :
    Within close behind (blocks + 1) rest := by
  rcases h.cases_cons with ⟨rfl, -⟩ | ⟨-, inner, hrest, hproper, henough⟩
  · rw [hclose] at hkind
    cases hkind
  · rw [surplus_lbrace hkind] at henough
    exact ⟨inner, hrest, hproper, by omega⟩

omit hclose in
theorem leave (h : Within close behind (blocks + 1) (first :: rest))
    (hkind : first.kind = .rbrace ∨ first.kind = .eof) : Within close behind blocks rest := by
  rcases h.cases_cons with ⟨-, -, hblocks⟩ | ⟨heof, inner, hrest, hproper, henough⟩
  · cases hblocks
  · rw [surplus_rbrace (hkind.resolve_right heof)] at henough
    exact ⟨inner, hrest, hproper, by omega⟩

/-- Skipping stops at the closing brace at the latest. -/
theorem skip : ∀ {tokens : List Token}, Within close behind blocks tokens →
    Within close behind blocks (tokens.dropWhile fun token =>
      !(token.kind = .semicolon || token.kind ∈ [TokenKind.rbrace]))
  | [], h => h
  | first :: rest, h => by
    rw [List.dropWhile_cons]
    split
    · rename_i hskip
      refine skip (h.pass hclose fun hkind => ?_)
      simp [hkind] at hskip
    · exact h

end Within

theorem Balanced.within {inside behind : List Token} {close : Token} (h : Balanced inside)
    (hproper : ∀ token ∈ inside, token.kind ≠ .eof) :
    Within close behind 0 (inside ++ close :: behind) :=
  ⟨inside, rfl, hproper, Int.le_of_eq (balanced_iff_surplus.1 h).1.symm⟩

namespace Seam

/-- A text in itself: nothing differs. -/
def own (inside : Nat → List Token → Prop) : Seam where
  place := id
  behind := []
  prior := []
  lasts := Eq
  inside := inside

variable {inside : Nat → List Token → Prop}

theorem own_ahead (tokens : List Token) :
    tokens.map (own inside).token ++ (own inside).behind = tokens :=
  (List.append_nil _).trans (Token.map_mapPlace_id tokens)

theorem at_own {blocks : Nat} {s t : ParserState} :
    (own inside).At blocks s t ↔ inside blocks s.window.ahead ∧ t = s := by
  constructor
  · rintro ⟨hinside, hahead, hlast, hdiagnostics⟩
    obtain ⟨⟨ahead, last⟩, diagnostics⟩ := t
    obtain rfl : ahead = s.window.ahead := hahead.trans (own_ahead _)
    obtain rfl : s.window.last = last := hlast
    obtain rfl : diagnostics = s.diagnostics := hdiagnostics.trans (Diagnostic.map_mapPlace_id _)
    exact ⟨hinside, rfl⟩
  · rintro ⟨hinside, rfl⟩
    exact ⟨hinside, (own_ahead _).symm, rfl, (Diagnostic.map_mapPlace_id _).symm⟩

variable {close : Token} {behind : List Token} (hclose : close.kind = .rbrace)
include hclose

theorem staying_within (blocks : Nat) :
    (own (Within close behind)).Staying [.rbrace] blocks where
  ends := by
    intro tokens h hkind
    cases tokens with
    | nil => exact h
    | cons first rest =>
      refine Within.pass hclose h ?_
      rw [hkind first rfl]
      decide
  skips := by
    intro tokens h
    refine ⟨Within.skip hclose h, ?_⟩
    rw [own_ahead, own_ahead]

theorem lawful_within : (own (Within close behind)).Lawful where
  seen := by
    rintro blocks tokens last _ - rfl
    rw [own_ahead]
    rfl
  tail := by
    intro blocks tokens _
    rw [own_ahead, own_ahead]
  next := by
    intro blocks tokens h hkind
    cases tokens with
    | nil => exact h
    | cons first rest =>
      refine Within.pass hclose h fun hbrace => ?_
      have hinner := hkind first rfl
      rw [hbrace] at hinner
      cases hinner
  opens := by
    intro blocks tokens h hkind
    cases tokens with
    | nil =>
      obtain ⟨inner, htokens, -⟩ := h
      exact absurd htokens.symm (List.append_ne_nil_of_right_ne_nil _ (List.cons_ne_nil _ _))
    | cons first rest => exact Within.enter hclose h (hkind first rfl)
  closes := by
    intro blocks tokens h hkind
    refine ⟨Within.mono h (Nat.le_succ _), ?_⟩
    cases tokens with
    | nil => exact Within.mono h (Nat.le_succ _)
    | cons first rest => exact Within.leave h (hkind first rfl)
  staying blocks := staying_within hclose (blocks + 1)

end Seam

namespace Parser

open Seam

variable {α : Type} {s : ParserState}

/-- Of a parser beside itself the property holds of its results, taken twice. -/
theorem Tandem.self {parser : Parser α} {good : α → α → ParserState → ParserState → Prop}
    {bad : Diagnostic → Diagnostic → ParserState → ParserState → Prop}
    (h : Tandem parser parser s s good bad) : parser.Gives s fun a t => good a a t t := by
  refine (Meets.run parser s).mono (fun a t hrun => h.of_ok hrun hrun) (fun _ _ _ => True.intro)
    fun _ => id

/-! ## Blocks in balanced text -/

variable {close : Token} {behind : List Token} {depth : Nat}

/-- A block in legible text is read, whatever is wrong with its statements. -/
theorem exists_block (hs : s.Ready (depth + 1)) :
    ∃ found t, blockWith (.upTo .standard depth) s = .ok found t ∧ s.Later t := by
  have hends := blockWith_forward (finite_upTo Grammar.tame_standard depth).forward s
    (hs.bounded fun _ => False)
  have hruns : (blockWith (.upTo .standard depth)).Meets s (fun _ _ => True) (fun _ _ => False)
      fun _ => True := by
    simp only [blockWith, meets_bind, meets_current, meets_advance, meets_remaining, meets_pure]
    exact (statementsWith_run _ _ _).mono (fun _ _ _ => True.intro) (fun _ _ => id) fun _ => id
  have hboth := hruns.and hends
  unfold Meets at hboth
  cases hrun : blockWith (.upTo .standard depth) s with
  | ok found t =>
    rw [hrun] at hboth
    exact ⟨found, t, rfl, hboth.2⟩
  | error stop t =>
    rw [hrun] at hboth
    cases stop with
    | malformed diagnostic => exact hboth.1.elim
    | abort cause => exact hboth.2.elim

/-- A block ends at a closing brace, and not behind its own one. -/
theorem blockWith_within (depth : Nat) (hclose : close.kind = .rbrace)
    (hs : Within close behind 0 s.window.ahead.tail) :
    (blockWith (.upTo .standard depth)).Gives s fun _ t =>
      Within close behind 0 t.window.ahead ∧ t.window.current.kind = .rbrace := by
  have lawful : (own (Within close behind)).Lawful := Seam.lawful_within hclose
  simp only [Gives, blockWith, meets_bind, meets_current, meets_advance, meets_remaining, meets_pure]
  refine (statementsWith_tandem lawful (twins_upTo lawful depth depth) (Seam.staying_within hclose 0)
    _ _ (Seam.at_own.2 ⟨hs, rfl⟩)).self.mono fun body t ht => ?_
  obtain ⟨-, hat, hstop⟩ := ht
  have hopen := Within.current_ne_eof hclose hat.inside
  exact ⟨hat.inside, List.mem_singleton.1 (hstop.resolve_left hopen)⟩

/-- A block in balanced, legible text is read, and it ends at a closing brace inside or at its own one. -/
theorem exists_block_within {brace : Token} {inside : List Token} (hs : s.Ready (depth + 1))
    (hahead : s.window.ahead = brace :: (inside ++ close :: behind)) (hbrace : brace.kind = .lbrace)
    (hclose : close.kind = .rbrace) (hinside : Balanced inside)
    (hproper : ∀ token ∈ inside, token.kind ≠ .eof) :
    ∃ found t skipped inner, blockWith (.upTo .standard depth) s = .ok found t ∧
      t.window.last = s.window.last ∧ t.window.current.kind = .rbrace ∧
      inside = skipped ++ inner ∧ t.window.ahead = inner ++ close :: behind := by
  obtain ⟨found, t, hrun, hlater⟩ := exists_block hs
  have hstart : Within close behind 0 s.window.ahead.tail := by
    rw [hahead]
    exact hinside.within hproper
  have hwithin := blockWith_within depth hclose hstart
  unfold Gives Meets at hwithin
  rw [hrun] at hwithin
  obtain ⟨⟨inner, hinner, -⟩, hkind⟩ := hwithin
  -- the opening brace is consumed
  have hsuffix : t.window.ahead <:+ inside ++ close :: behind := by
    refine (List.suffix_cons_iff.1 (hahead ▸ hlater.ahead)).resolve_left fun heq => ?_
    rw [TokenStream.current, heq, List.headD_cons, hbrace] at hkind
    cases hkind
  obtain ⟨skipped, hskipped⟩ := hsuffix
  rw [hinner, ← List.append_assoc] at hskipped
  exact ⟨found, t, skipped, inner, hrun, hlater.last, hkind,
    (List.append_cancel_right hskipped).symm, hinner⟩

end Parser

end MonkeyLang
