import TaggedUnion.Literal.Error
import TaggedUnion.Literal.Node
import TaggedUnion.Proofs.Literal.Escapes

/-!
# The grammar of literals

A literal is a number, a string or a name, a list of literals in brackets, or an object of fields
`name : literal` in braces.

* `Says`: the tokens that are literals by themselves.
* `Derives`: the token sequences that are literals, each with its tree.
* `Shallow`: the token sequences in which no more lists and objects are open than the limit allows.
* `Derives.append_cancel`: a text starts with at most one literal, and that has one tree.
-/

namespace TaggedUnion.Literal

/-- What a token says that is a literal by itself. -/
inductive Says : Token → Value → Prop where
  | int {span : Span} {text : List Char} : Says ⟨.int, span, text⟩ (.int (String.ofList text))
  | float {span : Span} {text : List Char} : Says ⟨.float, span, text⟩ (.float (String.ofList text))
  /-- The quotes around the spelling are dropped. -/
  | string {span : Span} {text contents : List Char} (h : Spells (text.drop 1).dropLast contents) :
    Says ⟨.string, span, text⟩ (.string (String.ofList contents))
  | true {span : Span} : Says ⟨.name, span, ['t', 'r', 'u', 'e']⟩ (.boolean true)
  | false {span : Span} : Says ⟨.name, span, ['f', 'a', 'l', 's', 'e']⟩ (.boolean false)
  | null {span : Span} : Says ⟨.name, span, ['n', 'u', 'l', 'l']⟩ .null
  | enum {span : Span} {text : List Char} (htrue : text ≠ ['t', 'r', 'u', 'e'])
    (hfalse : text ≠ ['f', 'a', 'l', 's', 'e']) (hnull : text ≠ ['n', 'u', 'l', 'l']) :
    Says ⟨.name, span, text⟩ (.enum (String.ofList text))

/-- A field as it is written: a name, a colon and the tokens of a value. -/
structure FieldPart where
  name : Token
  colon : Token
  tokens : List Token
  value : Node

namespace FieldPart

/-- The tokens of the field. -/
def word (part : FieldPart) : List Token := part.name :: part.colon :: part.tokens

/-- The field in the tree. -/
def field (part : FieldPart) : Field :=
  ⟨⟨String.ofList part.name.text, part.name.span⟩, part.value,
    part.name.span.merge part.value.span⟩

end FieldPart

/-- The token sequences that are a literal, with its tree. Fields keep their order and may repeat a
name. -/
inductive Derives : List Token → Node → Prop where
  | single {token : Token} {value : Value} (h : Says token value) :
    Derives [token] ⟨value, token.span⟩
  | list {opening closing : Token} {items : List (List Token × Node)}
    (hopening : opening.kind = .bracketOpen) (hclosing : closing.kind = .bracketClose)
    (hitems : ∀ item ∈ items, Derives item.1 item.2) :
    Derives (opening :: (items.flatMap Prod.fst ++ [closing]))
      ⟨.list (items.map Prod.snd), opening.span.merge closing.span⟩
  | object {opening closing : Token} {parts : List FieldPart}
    (hopening : opening.kind = .braceOpen) (hclosing : closing.kind = .braceClose)
    (hnames : ∀ part ∈ parts, part.name.kind = .name)
    (hcolons : ∀ part ∈ parts, part.colon.kind = .colon)
    (hvalues : ∀ part ∈ parts, Derives part.tokens part.value) :
    Derives (opening :: (parts.flatMap FieldPart.word ++ [closing]))
      ⟨.object (parts.map FieldPart.field), opening.span.merge closing.span⟩

/-! ## Nesting -/

/-- Whether a token opens a list or object. -/
def TokenKind.opens : TokenKind → Bool
  | .braceOpen => true
  | .bracketOpen => true
  | _ => false

/-- Whether a token closes a list or object. -/
def TokenKind.closes : TokenKind → Bool
  | .braceClose => true
  | .bracketClose => true
  | _ => false

/-- How many tokens open a list or object. -/
def openings (tokens : List Token) : Nat := tokens.countP (·.kind.opens)

/-- How many tokens close a list or object. -/
def closings (tokens : List Token) : Nat := tokens.countP (·.kind.closes)

/-- At no point are more lists and objects open than the limit allows. -/
def Shallow (tokens : List Token) : Prop :=
  ∀ before, before <+: tokens → openings before - closings before ≤ maxDepth

/-- At no point are more lists and objects open than the limit allows, if some are open from the
start. -/
def Fits (outer : Nat) (tokens : List Token) : Prop :=
  ∀ before, before <+: tokens → outer + openings before ≤ maxDepth + closings before

section Nesting

variable {outer : Nat} {token : Token} {tokens before after : List Token}

@[simp] theorem openings_append :
    openings (before ++ after) = openings before + openings after :=
  List.countP_append

@[simp] theorem closings_append :
    closings (before ++ after) = closings before + closings after :=
  List.countP_append

theorem openings_cons : openings (token :: tokens) =
    openings tokens + if token.kind.opens then 1 else 0 :=
  List.countP_cons

theorem closings_cons : closings (token :: tokens) =
    closings tokens + if token.kind.closes then 1 else 0 :=
  List.countP_cons

/-- No token opens and closes. -/
theorem TokenKind.closes_of_opens {kind : TokenKind} (h : kind.opens) : kind.closes = false := by
  cases kind <;> simp_all [opens, closes]

theorem openings_cons_of_opens (h : token.kind.opens) :
    openings (token :: tokens) = openings tokens + 1 := by
  rw [openings_cons, if_pos h]

theorem closings_cons_of_opens (h : token.kind.opens) :
    closings (token :: tokens) = closings tokens := by
  simp [closings_cons, TokenKind.closes_of_opens h]

@[simp] theorem openings_nil : openings [] = 0 := rfl

@[simp] theorem closings_nil : closings [] = 0 := rfl

theorem shallow_iff_fits : Shallow tokens ↔ Fits 0 tokens := by
  refine forall_congr' fun before => imp_congr_right fun _ => ?_
  omega

theorem Fits.left (h : Fits outer (before ++ after)) : Fits outer before :=
  fun _ hpart => h _ (hpart.trans (List.prefix_append before after))

/-- Behind a part that closes what it opens, as much room is left as before it. -/
theorem Fits.right (h : Fits outer (before ++ after))
    (hbalanced : openings before = closings before) : Fits outer after := by
  intro part hpart
  have := h (before ++ part) ((List.prefix_append_right_inj before).mpr hpart)
  rw [openings_append, closings_append] at this
  omega

/-- Where nothing is opened, no room is taken. -/
theorem fits_of_openings_eq_zero (houter : outer ≤ maxDepth) (h : openings tokens = 0) :
    Fits outer tokens := by
  intro before hbefore
  have : openings before ≤ openings tokens := hbefore.sublist.countP_le
  omega

/-- A part that closes what it opens may stand in front of another one. -/
theorem Fits.append (h : Fits outer before) (hbalanced : openings before = closings before)
    (h' : Fits outer after) : Fits outer (before ++ after) := by
  intro part hpart
  obtain ⟨tail, htail⟩ := hpart
  rcases List.append_eq_append_iff.mp htail with ⟨missing, rfl, -⟩ | ⟨rest, rfl, rfl⟩
  · exact h part (List.prefix_append part missing)
  · have := h' rest (List.prefix_append rest tail)
    rw [openings_append, closings_append]
    omega

/-- A token that opens takes room for one. -/
theorem Fits.opening (h : Fits outer (token :: tokens)) (hopens : token.kind.opens) :
    outer < maxDepth ∧ Fits (outer + 1) tokens := by
  constructor
  · have := h [token] (List.prefix_append [token] tokens)
    rw [openings_cons_of_opens hopens, closings_cons_of_opens hopens, openings_nil,
      closings_nil] at this
    omega
  · intro part hpart
    have := h (token :: part) (List.prefix_cons_iff.mpr (.inr ⟨part, rfl, hpart⟩))
    rw [openings_cons_of_opens hopens, closings_cons_of_opens hopens] at this
    omega

/-- What is put in brackets takes room for one more. -/
theorem Fits.bracketed {opening closing : Token} (h : Fits (outer + 1) tokens)
    (hbalanced : openings tokens = closings tokens) (hopens : opening.kind.opens)
    (hcloses : closing.kind.closes) : Fits outer (opening :: (tokens ++ [closing])) := by
  have hroom : outer + 1 ≤ maxDepth := h [] List.nil_prefix
  intro before hbefore
  rcases List.prefix_cons_iff.mp hbefore with rfl | ⟨part, rfl, hpart⟩
  · rw [openings_nil, closings_nil]
    omega
  · rw [openings_cons_of_opens hopens, closings_cons_of_opens hopens]
    rcases List.prefix_concat_iff.mp hpart with rfl | hpart
    · have hopenings : openings [closing] ≤ closings [closing] := by
        simp [openings_cons, closings_cons, hcloses]
        split <;> omega
      rw [openings_append, closings_append]
      omega
    · have := h part hpart
      omega

end Nesting

/-! ## Literals in a token sequence -/

theorem Says.kind {token : Token} {value : Value} (h : Says token value) :
    token.kind = .int ∨ token.kind = .float ∨ token.kind = .string ∨ token.kind = .name := by
  cases h <;> simp

theorem Says.kind_ne {token : Token} {value : Value} (h : Says token value) :
    token.kind ≠ .bracketOpen ∧ token.kind ≠ .braceOpen := by
  rcases h.kind with hkind | hkind | hkind | hkind <;> simp [hkind]

/-- What is a literal by itself opens nothing. -/
theorem Says.openings {token : Token} {value : Value} (h : Says token value) :
    openings [token] = 0 := by
  rcases h.kind with hkind | hkind | hkind | hkind <;>
    simp [openings_cons, hkind, TokenKind.opens]

/-- Parts that close all that they open do so together. -/
theorem balanced_flatMap {α : Type} {word : α → List Token} {parts : List α}
    (h : ∀ part ∈ parts, openings (word part) = closings (word part)) :
    openings (parts.flatMap word) = closings (parts.flatMap word) := by
  induction parts with
  | nil => rfl
  | cons part rest ih =>
    obtain ⟨hpart, hrest⟩ := List.forall_mem_cons.mp h
    rw [List.flatMap_cons, openings_append, closings_append, hpart, ih hrest]

theorem FieldPart.word_eq {part : FieldPart} :
    part.word = [part.name, part.colon] ++ part.tokens := rfl

/-- A name and a colon open nothing and close nothing. -/
theorem FieldPart.balanced_head {part : FieldPart} (hname : part.name.kind = .name)
    (hcolon : part.colon.kind = .colon) :
    openings [part.name, part.colon] = closings [part.name, part.colon] := by
  simp only [openings_cons, closings_cons, hname, hcolon]
  rfl

/-- A field closes all that it opens if its value does. -/
theorem FieldPart.balanced {part : FieldPart} (hname : part.name.kind = .name)
    (hcolon : part.colon.kind = .colon) (htokens : openings part.tokens = closings part.tokens) :
    openings part.word = closings part.word := by
  rw [word_eq, openings_append, closings_append, balanced_head hname hcolon, htokens]

/-- A literal closes all that it opens. -/
theorem Derives.balanced {tokens : List Token} {node : Node} (h : Derives tokens node) :
    openings tokens = closings tokens := by
  induction h with
  | single h =>
    rcases h.kind with hkind | hkind | hkind | hkind <;>
      simp [openings_cons, closings_cons, hkind, TokenKind.opens, TokenKind.closes]
  | list hopening hclosing _ ih =>
    simp [openings_cons, closings_cons, hopening, hclosing, balanced_flatMap ih, TokenKind.opens,
      TokenKind.closes, Nat.add_comm]
  | @object opening closing parts hopening hclosing hnames hcolons _ ih =>
    have hparts : ∀ part ∈ parts, openings part.word = closings part.word :=
      fun part hmem => FieldPart.balanced (hnames part hmem) (hcolons part hmem) (ih part hmem)
    simp [openings_cons, closings_cons, hopening, hclosing, balanced_flatMap hparts,
      TokenKind.opens, TokenKind.closes, Nat.add_comm]

/-! ## One tree for each text -/

/-- A token says at most one thing. -/
theorem Says.functional {token : Token} {value value' : Value} (h : Says token value)
    (h' : Says token value') : value = value' := by
  cases h with
  | string hspells =>
    cases h' with
    | string hspells' =>
      have hdecode : decode 0 _ = _ := decode_of_spells hspells
      have hdecode' : decode 0 _ = _ := decode_of_spells hspells'
      cases hdecode.symm.trans hdecode'
      rfl
  | _ => cases h' <;> first | rfl | contradiction

/-- A literal starts with a token that closes nothing. -/
theorem Derives.exists_cons {tokens : List Token} {node : Node} (h : Derives tokens node) :
    ∃ token rest, tokens = token :: rest ∧ token.kind.closes = false := by
  cases h with
  | single h =>
    rcases h.kind with hkind | hkind | hkind | hkind <;>
      exact ⟨_, _, rfl, by simp [hkind, TokenKind.closes]⟩
  | list hopening => exact ⟨_, _, rfl, by simp [hopening, TokenKind.closes]⟩
  | object hopening => exact ⟨_, _, rfl, by simp [hopening, TokenKind.closes]⟩

/-- Parts in front of a closing token are told apart one after the other, if each of them is and
none starts with a closing token. -/
theorem flatMap_cancel {α : Type} {word : α → List Token} {parts parts' : List α}
    {closing closing' : Token} {rest rest' : List Token} (hclosing : closing.kind.closes)
    (hclosing' : closing'.kind.closes)
    (hstart : ∀ part, part ∈ parts ∨ part ∈ parts' →
      ∃ token tail, word part = token :: tail ∧ token.kind.closes = false)
    (hcancel : ∀ part ∈ parts, ∀ part' ∈ parts', ∀ tail tail',
      word part ++ tail = word part' ++ tail' → part = part' ∧ tail = tail')
    (h : parts.flatMap word ++ closing :: rest = parts'.flatMap word ++ closing' :: rest') :
    parts = parts' ∧ closing = closing' ∧ rest = rest' := by
  induction parts generalizing parts' with
  | nil =>
    cases parts' with
    | nil => simpa using h
    | cons part' others' =>
      obtain ⟨token, tail, hword, hcloses⟩ := hstart part' (.inr List.mem_cons_self)
      rw [List.flatMap_cons, hword] at h
      obtain ⟨rfl, -⟩ := List.cons.inj h
      rw [hcloses] at hclosing
      cases hclosing
  | cons part others ih =>
    cases parts' with
    | nil =>
      obtain ⟨token, tail, hword, hcloses⟩ := hstart part (.inl List.mem_cons_self)
      rw [List.flatMap_cons, hword] at h
      obtain ⟨rfl, -⟩ := List.cons.inj h
      rw [hcloses] at hclosing'
      cases hclosing'
    | cons part' others' =>
      rw [List.flatMap_cons, List.flatMap_cons, List.append_assoc, List.append_assoc] at h
      obtain ⟨rfl, htail⟩ :=
        hcancel part List.mem_cons_self part' List.mem_cons_self _ _ h
      obtain ⟨rfl, hrest⟩ := ih
        (fun part hmem => hstart part (hmem.imp (List.mem_cons_of_mem _) (List.mem_cons_of_mem _)))
        (fun part hmem part' hmem' =>
          hcancel part (List.mem_cons_of_mem _ hmem) part' (List.mem_cons_of_mem _ hmem'))
        htail
      exact ⟨rfl, hrest⟩

/-- **The grammar is unambiguous.** A token sequence starts with at most one literal, and that has
one tree. -/
theorem Derives.append_cancel {tokens tokens' rest rest' : List Token} {node node' : Node}
    (h : Derives tokens node) (h' : Derives tokens' node')
    (heq : tokens ++ rest = tokens' ++ rest') :
    tokens = tokens' ∧ node = node' ∧ rest = rest' := by
  induction h generalizing tokens' node' rest rest' with
  | single h =>
    cases h' with
    | single h' =>
      obtain ⟨rfl, rfl⟩ := List.cons.inj heq
      obtain rfl := h.functional h'
      exact ⟨rfl, rfl, rfl⟩
    | list hopening =>
      obtain ⟨rfl, -⟩ := List.cons.inj heq
      exact absurd hopening h.kind_ne.1
    | object hopening =>
      obtain ⟨rfl, -⟩ := List.cons.inj heq
      exact absurd hopening h.kind_ne.2
  | @list opening closing items hopening hclosing hitems ih =>
    cases h' with
    | single h' =>
      obtain ⟨rfl, -⟩ := List.cons.inj heq
      exact absurd hopening h'.kind_ne.1
    | @list _ closing' items' _ hclosing' hitems' =>
      rw [List.cons_append, List.cons_append, List.append_assoc, List.append_assoc] at heq
      obtain ⟨rfl, htail⟩ := List.cons.inj heq
      obtain ⟨rfl, rfl, rfl⟩ := flatMap_cancel (by simp [hclosing, TokenKind.closes])
        (by simp [hclosing', TokenKind.closes])
        (fun item hmem => (hmem.elim (hitems item) (hitems' item)).exists_cons)
        (fun item hmem item' hmem' _ _ heq => by
          obtain ⟨htokens, hnode, hrest⟩ := ih item hmem (hitems' item' hmem') heq
          exact ⟨Prod.ext htokens hnode, hrest⟩)
        htail
      exact ⟨rfl, rfl, rfl⟩
    | object hopening' =>
      obtain ⟨rfl, -⟩ := List.cons.inj heq
      simp [hopening] at hopening'
  | @object opening closing parts hopening hclosing hnames hcolons hvalues ih =>
    cases h' with
    | single h' =>
      obtain ⟨rfl, -⟩ := List.cons.inj heq
      exact absurd hopening h'.kind_ne.2
    | list hopening' =>
      obtain ⟨rfl, -⟩ := List.cons.inj heq
      simp [hopening] at hopening'
    | @object _ closing' parts' _ hclosing' hnames' _ hvalues' =>
      rw [List.cons_append, List.cons_append, List.append_assoc, List.append_assoc] at heq
      obtain ⟨rfl, htail⟩ := List.cons.inj heq
      obtain ⟨rfl, rfl, rfl⟩ := flatMap_cancel (by simp [hclosing, TokenKind.closes])
        (by simp [hclosing', TokenKind.closes])
        (fun part hmem => ⟨part.name, part.colon :: part.tokens, rfl, by
          simp [hmem.elim (hnames part) (hnames' part), TokenKind.closes]⟩)
        (fun part hmem part' hmem' _ _ heq => by
          obtain ⟨hname, hrest⟩ := List.cons.inj heq
          obtain ⟨hcolon, hrest⟩ := List.cons.inj hrest
          obtain ⟨htokens, hnode, hrest⟩ := ih part hmem (hvalues' part' hmem') hrest
          cases part
          cases part'
          simp_all)
        htail
      exact ⟨rfl, rfl, rfl⟩

end TaggedUnion.Literal
