/-!
The kinds of syntax element: eight of trivia, twenty-two of token, seventeen of node. A kind's tag
is its place in the declaration, and that place is also its place in the order of kinds.
-/

namespace GreenTree

inductive Kind where
  | whitespaceTrivia | endOfLineTrivia | singleLineCommentTrivia | multiLineCommentTrivia
  | documentationCommentTrivia | disabledTextTrivia | skippedTokensTrivia
  | preprocessingMessageTrivia
  | leftParen | rightParen | leftBrace | rightBrace | comma | semicolon | dot | equals | plus
  | minus | star | slash
  | funKw | valKw | ifKw | elseKw | returnKw | ident | number | stringLit | unknown | eof
  | moduleRoot | listNode | functionDecl | paramList | block | valDecl | exprStmt | returnStmt
  | ifExpr | binaryExpr | prefixExpr | callExpr | argList | parenExpr | literal | nameRef
  | errorNode
deriving DecidableEq, Repr, Hashable, Inhabited

namespace Kind

def all : List Kind :=
  [.whitespaceTrivia, .endOfLineTrivia, .singleLineCommentTrivia, .multiLineCommentTrivia,
   .documentationCommentTrivia, .disabledTextTrivia, .skippedTokensTrivia,
   .preprocessingMessageTrivia, .leftParen, .rightParen, .leftBrace, .rightBrace, .comma,
   .semicolon, .dot, .equals, .plus, .minus, .star, .slash, .funKw, .valKw, .ifKw, .elseKw,
   .returnKw, .ident, .number, .stringLit, .unknown, .eof, .moduleRoot, .listNode, .functionDecl,
   .paramList, .block, .valDecl, .exprStmt, .returnStmt, .ifExpr, .binaryExpr, .prefixExpr,
   .callExpr, .argList, .parenExpr, .literal, .nameRef, .errorNode]

def tag (k : Kind) : Nat := k.ctorIdx

def ofTag? (tag : Nat) : Option Kind := all[tag]?

def name : Kind → String
  | .whitespaceTrivia => "WHITESPACE_TRIVIA"
  | .endOfLineTrivia => "END_OF_LINE_TRIVIA"
  | .singleLineCommentTrivia => "SINGLE_LINE_COMMENT_TRIVIA"
  | .multiLineCommentTrivia => "MULTI_LINE_COMMENT_TRIVIA"
  | .documentationCommentTrivia => "DOCUMENTATION_COMMENT_TRIVIA"
  | .disabledTextTrivia => "DISABLED_TEXT_TRIVIA"
  | .skippedTokensTrivia => "SKIPPED_TOKENS_TRIVIA"
  | .preprocessingMessageTrivia => "PREPROCESSING_MESSAGE_TRIVIA"
  | .leftParen => "LEFT_PAREN"
  | .rightParen => "RIGHT_PAREN"
  | .leftBrace => "LEFT_BRACE"
  | .rightBrace => "RIGHT_BRACE"
  | .comma => "COMMA"
  | .semicolon => "SEMICOLON"
  | .dot => "DOT"
  | .equals => "EQ"
  | .plus => "PLUS"
  | .minus => "MINUS"
  | .star => "STAR"
  | .slash => "SLASH"
  | .funKw => "FUN_KW"
  | .valKw => "VAL_KW"
  | .ifKw => "IF_KW"
  | .elseKw => "ELSE_KW"
  | .returnKw => "RETURN_KW"
  | .ident => "IDENT"
  | .number => "NUMBER"
  | .stringLit => "STRING"
  | .unknown => "UNKNOWN"
  | .eof => "EOF"
  | .moduleRoot => "MODULE"
  | .listNode => "LIST"
  | .functionDecl => "FUNCTION"
  | .paramList => "PARAM_LIST"
  | .block => "BLOCK"
  | .valDecl => "VAL_DECL"
  | .exprStmt => "EXPR_STMT"
  | .returnStmt => "RETURN_STMT"
  | .ifExpr => "IF_EXPR"
  | .binaryExpr => "BINARY_EXPR"
  | .prefixExpr => "PREFIX_EXPR"
  | .callExpr => "CALL_EXPR"
  | .argList => "ARG_LIST"
  | .parenExpr => "PAREN_EXPR"
  | .literal => "LITERAL"
  | .nameRef => "NAME_REF"
  | .errorNode => "ERROR"

def ofName? (name : String) : Option Kind := all.find? (·.name == name)

instance : LE Kind := ⟨fun a b => a.tag ≤ b.tag⟩

instance (a b : Kind) : Decidable (a ≤ b) := inferInstanceAs (Decidable (a.tag ≤ b.tag))

@[simp] theorem ofTag?_tag (k : Kind) : ofTag? k.tag = some k := by
  cases k <;> rfl

theorem tag_of_ofTag? {n : Nat} {k : Kind} (h : ofTag? n = some k) : k.tag = n := by
  have bound : n < all.length := by
    rw [ofTag?, List.getElem?_eq_some_iff] at h
    exact h.1
  have each : ∀ m : Fin 47, ∀ j, ofTag? m.val = some j → j.tag = m.val := by decide +kernel
  exact each ⟨n, bound⟩ k h

theorem tag_injective {a b : Kind} (h : a.tag = b.tag) : a = b := by
  have := ofTag?_tag a
  rw [h, ofTag?_tag] at this
  exact (Option.some.inj this).symm

theorem tag_lt (k : Kind) : k.tag < 47 := by
  cases k <;> decide

theorem mem_all (k : Kind) : k ∈ all := by
  cases k <;> decide

end Kind

end GreenTree
