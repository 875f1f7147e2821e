import PageScript.Grammar.Rule

/-! The shift/reduce automaton of the grammar, as data. Each state lists where
its tokens and phrases lead, and which rule it reduces by before which tokens.
Where a state could both shift and reduce, it shifts. -/
namespace PageScript.Automaton

/-- One state of the automaton. -/
structure Row where
  shifts : List (Terminal × Nat)
  reductions : List (Rule × List Terminal)
  gotos : List (Nonterminal × Nat)
  deriving Repr, DecidableEq

/-- What can follow a whole expression. -/
def afterExpression : List Terminal :=
  [.terminator, .comma, .closeParen]

def afterDisjunction : List Terminal :=
  [.or] ++ afterExpression

def afterConjunction : List Terminal :=
  [.and] ++ afterDisjunction

def afterEquality : List Terminal :=
  [.same, .differs] ++ afterConjunction

def afterRelation : List Terminal :=
  [.less, .greater, .lessEqual, .greaterEqual] ++ afterEquality

def afterSum : List Terminal :=
  [.plus, .minus] ++ afterRelation

def afterProduct : List Terminal :=
  [.times, .divide] ++ afterSum

def afterPostfixed : List Terminal :=
  [.dot, .openParen] ++ afterProduct

/-- What can follow a type. -/
def afterType : List Terminal :=
  [.terminator, .comma, .equals, .greater, .closeParen]

def afterTypeName : List Terminal :=
  [.less] ++ afterType

/-- What can follow the body of a block. -/
def afterBlock : List Terminal :=
  [.terminator, .catchWord, .elseWord, .finallyWord]

/-- What can begin a statement or an element. -/
def startOfStatement : List Terminal :=
  [.apply, .async, .await, .boolean, .classWord, .connect, .const, .define, .delete, .decimal,
  .forWord, .function, .hash, .identifier, .ifWord, .integer, .openParen, .minus, .not, .query,
  .returnWord, .save, .showWord, .text, .throwWord, .transaction, .tryWord, .whileWord]

/-- What can follow an item of a program. -/
def afterItem : List Terminal :=
  [.endOfInput, .terminator] ++ startOfStatement

/-- What can follow an element, in a program or a block. -/
def afterElement : List Terminal :=
  [.catchWord, .elseWord, .finallyWord] ++ afterItem

/-- Where the words that begin a statement lead. -/
def statementShifts : List (Terminal × Nat) :=
  [(.define, 28), (.const, 30), (.showWord, 31), (.save, 32), (.delete, 33), (.returnWord, 34),
  (.throwWord, 35), (.connect, 36), (.query, 38), (.classWord, 50), (.ifWord, 51), (.whileWord, 53),
  (.forWord, 54), (.tryWord, 55), (.transaction, 56), (.apply, 57), (.async, 59), (.function, 60)]

/-- Where the tokens that begin an operand lead, identifiers apart. -/
def operandShifts : List (Terminal × Nat) :=
  [(.await, 70), (.boolean, 75), (.decimal, 74), (.integer, 73), (.openParen, 52), (.minus, 67),
  (.not, 69), (.text, 37)]

/-- The shifts of a state where an operand can begin. -/
def toOperand (own : List (Terminal × Nat)) : List (Terminal × Nat) :=
  own ++ operandShifts

/-- The shifts of a state where a statement can begin. -/
def toStatement (own : List (Terminal × Nat)) : List (Terminal × Nat) :=
  own ++ statementShifts ++ operandShifts

/-- Where the statements of all kinds lead. -/
def statementGotos : List (Nonterminal × Nat) :=
  [(.variableDeclaration, 7), (.constDeclaration, 8), (.showStatement, 9), (.saveStatement, 10),
  (.deleteStatement, 11), (.returnStatement, 12), (.throwStatement, 13), (.connectStatement, 14),
  (.queryStatement, 15), (.cryptoStatement, 16), (.quantumStatement, 17),
  (.expressionStatement, 18),
  (.functionDeclaration, 19), (.classDeclaration, 20), (.ifStatement, 21), (.whileStatement, 22),
  (.forStatement, 23), (.tryStatement, 24), (.transaction, 25), (.keyGeneration, 39),
  (.publicKey, 40),
  (.encryption, 41), (.decryption, 42), (.hashing, 43), (.signing, 44), (.verification, 45),
  (.qubitDeclaration, 46), (.gateApplication, 47), (.measurement, 48), (.functionHead, 49)]

/-- Where the parts of an expression lead, from the tightest binding on. -/
def fromPostfixed : List (Nonterminal × Nat) :=
  [(.postfixed, 71), (.primary, 72)]

def fromUnary : List (Nonterminal × Nat) :=
  (.unary, 68) :: fromPostfixed

def fromProduct : List (Nonterminal × Nat) :=
  (.product, 66) :: fromUnary

def fromSum : List (Nonterminal × Nat) :=
  (.sum, 65) :: fromProduct

def fromRelation : List (Nonterminal × Nat) :=
  (.relation, 64) :: fromSum

def fromEquality : List (Nonterminal × Nat) :=
  (.equality, 63) :: fromRelation

def fromConjunction : List (Nonterminal × Nat) :=
  (.conjunction, 62) :: fromEquality

def fromDisjunction : List (Nonterminal × Nat) :=
  (.disjunction, 61) :: fromConjunction

def fromAssignment : List (Nonterminal × Nat) :=
  (.assignment, 58) :: fromDisjunction

/-- The ways on from a state where a statement can begin. -/
def viaStatement (own : List (Nonterminal × Nat)) : List (Nonterminal × Nat) :=
  own ++ statementGotos ++ fromAssignment

/-- States 0 to 45. -/
def statesFrom0 : List Row :=
  [⟨toStatement [(.hash, 26), (.identifier, 27)], [(.nothing, [.endOfInput])],
    viaStatement [(.program, 1), (.items, 2), (.nothing, 3), (.item, 4), (.statement, 5),
      (.element, 6), (.expression, 29)]⟩,
    ⟨[], [], []⟩,
    ⟨toStatement [(.terminator, 76), (.hash, 26), (.identifier, 27)],
      [(.programItems, [.endOfInput])],
      viaStatement [(.item, 77), (.statement, 5), (.element, 6), (.expression, 29)]⟩,
    ⟨[], [(.programEmpty, [.endOfInput])], []⟩,
    ⟨[], [(.itemsOne, afterItem)], []⟩,
    ⟨[(.terminator, 78)], [], []⟩,
    ⟨[], [(.itemElement, afterItem)], []⟩,
    ⟨[], [(.statementVariable, [.terminator])], []⟩,
    ⟨[], [(.statementConst, [.terminator])], []⟩,
    ⟨[], [(.statementShow, [.terminator])], []⟩,
    ⟨[], [(.statementSave, [.terminator])], []⟩,
    ⟨[], [(.statementDelete, [.terminator])], []⟩,
    ⟨[], [(.statementReturn, [.terminator])], []⟩,
    ⟨[], [(.statementThrow, [.terminator])], []⟩,
    ⟨[], [(.statementConnect, [.terminator])], []⟩,
    ⟨[], [(.statementQuery, [.terminator])], []⟩,
    ⟨[], [(.statementCrypto, [.terminator])], []⟩,
    ⟨[], [(.statementQuantum, [.terminator])], []⟩,
    ⟨[], [(.statementExpression, [.terminator])], []⟩,
    ⟨[], [(.statementFunction, [.terminator])], []⟩,
    ⟨[], [(.statementClass, [.terminator])], []⟩,
    ⟨[], [(.statementIf, [.terminator])], []⟩,
    ⟨[], [(.statementWhile, [.terminator])], []⟩,
    ⟨[], [(.statementFor, [.terminator])], []⟩,
    ⟨[], [(.statementTry, [.terminator])], []⟩,
    ⟨[], [(.statementTransaction, [.terminator])], []⟩,
    ⟨[(.identifier, 79)], [], []⟩,
    ⟨[(.plusEquals, 80), (.equals, 81)], [(.identifier, afterPostfixed)], []⟩,
    ⟨[(.identifier, 82)], [], []⟩,
    ⟨[], [(.expressionStatement, [.terminator])], []⟩,
    ⟨[(.identifier, 83)], [], []⟩,
    ⟨toOperand [(.identifier, 27)], [], (.expression, 84) :: fromAssignment⟩,
    ⟨[(.identifier, 85)], [], []⟩,
    ⟨[(.identifier, 86)], [], []⟩,
    ⟨toOperand [(.identifier, 27)], [(.returnNothing, [.terminator])], (.expression, 87) ::
      fromAssignment⟩,
    ⟨toOperand [(.identifier, 27)], [], (.expression, 88) :: fromAssignment⟩,
    ⟨[(.toWord, 89)], [], []⟩,
    ⟨[], [(.text, afterPostfixed)], []⟩,
    ⟨[(.onWord, 90)], [], []⟩,
    ⟨[], [(.cryptoKey, [.terminator])], []⟩,
    ⟨[], [(.cryptoPublicKey, [.terminator])], []⟩,
    ⟨[], [(.cryptoEncryption, [.terminator])], []⟩,
    ⟨[], [(.cryptoDecryption, [.terminator])], []⟩,
    ⟨[], [(.cryptoHashing, [.terminator])], []⟩,
    ⟨[], [(.cryptoSigning, [.terminator])], []⟩,
    ⟨[], [(.cryptoVerification, [.terminator])], []⟩]

/-- States 46 to 91. -/
def statesFrom46 : List Row :=
  [⟨[], [(.quantumQubit, [.terminator])], []⟩,
    ⟨[], [(.quantumGate, [.terminator])], []⟩,
    ⟨[], [(.quantumMeasurement, [.terminator])], []⟩,
    ⟨[(.terminator, 91)], [], []⟩,
    ⟨[(.identifier, 92)], [], []⟩,
    ⟨[(.openParen, 93)], [], []⟩,
    ⟨toOperand [(.identifier, 27)], [], (.expression, 94) :: fromAssignment⟩,
    ⟨[(.openParen, 95)], [], []⟩,
    ⟨[(.openParen, 96)], [], []⟩,
    ⟨[(.terminator, 97)], [], []⟩,
    ⟨[(.onWord, 98)], [], []⟩,
    ⟨[(.identifier, 99)], [], []⟩,
    ⟨[], [(.expression, afterExpression)], []⟩,
    ⟨[(.function, 100)], [], []⟩,
    ⟨[(.identifier, 101)], [], []⟩,
    ⟨[(.or, 102)], [(.assignmentPlain, afterExpression)], []⟩,
    ⟨[(.and, 103)], [(.disjunctionPlain, afterDisjunction)], []⟩,
    ⟨[(.same, 104), (.differs, 105)], [(.conjunctionPlain, afterConjunction)], []⟩,
    ⟨[(.less, 106), (.greater, 107), (.lessEqual, 108), (.greaterEqual, 109)], [(.equalityPlain,
      afterEquality)], []⟩,
    ⟨[(.plus, 110), (.minus, 111)], [(.relationPlain, afterRelation)], []⟩,
    ⟨[(.times, 112), (.divide, 113)], [(.sumPlain, afterSum)], []⟩,
    ⟨[(.integer, 114), (.decimal, 115)], [], []⟩,
    ⟨[], [(.productPlain, afterProduct)], []⟩,
    ⟨toOperand [(.identifier, 117)], [], (.unary, 116) :: fromPostfixed⟩,
    ⟨toOperand [(.identifier, 117)], [], (.unary, 118) :: fromPostfixed⟩,
    ⟨[(.dot, 119), (.openParen, 120)], [(.unaryPlain, afterProduct)], []⟩,
    ⟨[], [(.postfixedPlain, afterPostfixed)], []⟩,
    ⟨[], [(.integer, afterPostfixed)], []⟩,
    ⟨[], [(.decimal, afterPostfixed)], []⟩,
    ⟨[], [(.boolean, afterPostfixed)], []⟩,
    ⟨[], [(.programTerminated, [.endOfInput])], []⟩,
    ⟨[], [(.itemsMore, afterItem)], []⟩,
    ⟨[], [(.itemStatement, afterItem)], []⟩,
    ⟨toStatement [(.identifier, 122), (.hash, 121)], [],
      viaStatement [(.elementBody, 123), (.attributes, 124), (.contentItems, 125),
        (.emptyBody, 126), (.attributePair, 127), (.contentItem, 128), (.statement, 129),
        (.expression, 130), (.dynamicContent, 131)]⟩,
    ⟨toOperand [(.identifier, 27)], [], (.expression, 132) :: fromAssignment⟩,
    ⟨toOperand [(.identifier, 27)], [], (.expression, 133) :: fromAssignment⟩,
    ⟨[(.colon, 134), (.equals, 135), (.asWord, 136)], [], []⟩,
    ⟨[(.colon, 137), (.equals, 138)], [], []⟩,
    ⟨[], [(.showStatement, [.terminator])], []⟩,
    ⟨[(.equals, 139)], [], []⟩,
    ⟨[], [(.delete, [.terminator])], []⟩,
    ⟨[], [(.returnValue, [.terminator])], []⟩,
    ⟨[], [(.throwStatement, [.terminator])], []⟩,
    ⟨[(.text, 140)], [], []⟩,
    ⟨[(.identifier, 141)], [], []⟩,
    ⟨toStatement [(.identifier, 27)], [], viaStatement [(.functionBody, 142), (.statements, 143),
      (.statement, 144), (.expression, 29)]⟩]

/-- States 92 to 137. -/
def statesFrom92 : List Row :=
  [⟨[(.terminator, 145)], [], []⟩,
    ⟨toOperand [(.identifier, 27)], [], (.expression, 146) :: fromAssignment⟩,
    ⟨[(.closeParen, 147)], [], []⟩,
    ⟨toOperand [(.identifier, 27)], [], (.expression, 148) :: fromAssignment⟩,
    ⟨[(.identifier, 149)], [], []⟩,
    ⟨toStatement [(.hash, 26), (.identifier, 27)],
      [(.nothing, [.terminator, .catchWord, .finallyWord])],
      viaStatement [(.blockBody, 150), (.statements, 151), (.element, 152), (.nothing, 153),
        (.statement, 144), (.expression, 29)]⟩,
    ⟨[(.identifier, 154)], [], []⟩,
    ⟨[(.onWord, 155)], [], []⟩,
    ⟨[(.identifier, 156)], [], []⟩,
    ⟨[(.openParen, 158)], [], [(.parameterList, 157)]⟩,
    ⟨toOperand [(.identifier, 117)], [], (.conjunction, 159) :: fromEquality⟩,
    ⟨toOperand [(.identifier, 117)], [], (.equality, 160) :: fromRelation⟩,
    ⟨toOperand [(.identifier, 117)], [], (.relation, 161) :: fromSum⟩,
    ⟨toOperand [(.identifier, 117)], [], (.relation, 162) :: fromSum⟩,
    ⟨toOperand [(.identifier, 117)], [], (.sum, 163) :: fromProduct⟩,
    ⟨toOperand [(.identifier, 117)], [], (.sum, 164) :: fromProduct⟩,
    ⟨toOperand [(.identifier, 117)], [], (.sum, 165) :: fromProduct⟩,
    ⟨toOperand [(.identifier, 117)], [], (.sum, 166) :: fromProduct⟩,
    ⟨toOperand [(.identifier, 117)], [], (.product, 167) :: fromUnary⟩,
    ⟨toOperand [(.identifier, 117)], [], (.product, 168) :: fromUnary⟩,
    ⟨toOperand [(.identifier, 117)], [], (.unary, 169) :: fromPostfixed⟩,
    ⟨toOperand [(.identifier, 117)], [], (.unary, 170) :: fromPostfixed⟩,
    ⟨[], [(.negativeInteger, afterPostfixed)], []⟩,
    ⟨[], [(.negativeDecimal, afterPostfixed)], []⟩,
    ⟨[], [(.negation, afterProduct)], []⟩,
    ⟨[], [(.identifier, afterPostfixed)], []⟩,
    ⟨[], [(.awaiting, afterProduct)], []⟩,
    ⟨[(.identifier, 171)], [], []⟩,
    ⟨toOperand [(.identifier, 27)], [(.nothing, [.comma, .closeParen])], (.arguments, 172) ::
      (.expression, 173) :: (.nothing, 174) :: fromAssignment⟩,
    ⟨[(.openParen, 175)], [], []⟩,
    ⟨[(.colon, 176), (.plusEquals, 80), (.equals, 81)],
      [(.identifier, [.and, .terminator, .divide, .dot, .same, .greaterEqual, .greater, .lessEqual,
        .less, .openParen, .minus, .differs, .or, .plus, .times])], []⟩,
    ⟨[(.hash, 177)], [], [(.closingTag, 178)]⟩,
    ⟨[(.terminator, 179), (.identifier, 181)], [(.bodyAttributes, [.hash])],
      [(.attributePair, 180)]⟩,
    ⟨toStatement [(.hash, 121), (.identifier, 27)], [],
      viaStatement [(.contentItem, 182), (.statement, 129), (.expression, 130),
        (.dynamicContent, 131)]⟩,
    ⟨[], [(.bodyEmpty, [.hash])], []⟩,
    ⟨[], [(.attributesOne, [.terminator, .hash, .identifier])], []⟩,
    ⟨[], [(.contentOne, startOfStatement)], []⟩,
    ⟨[(.terminator, 183)], [], []⟩,
    ⟨[(.terminator, 184)], [], []⟩,
    ⟨[(.terminator, 185)], [], []⟩,
    ⟨[], [(.assignSum, afterExpression)], []⟩,
    ⟨[], [(.assign, afterExpression)], []⟩,
    ⟨[(.identifier, 186), (.typeWord, 189)], [], [(.type, 187), (.typeName, 188)]⟩,
    ⟨toOperand [(.generateKey, 191), (.derivePublicKey, 192), (.encrypt, 193),
      (.decrypt, 194), (.hash, 195), (.sign, 196), (.verify, 197), (.measure, 198),
      (.identifier, 27)], [], (.expression, 190) ::
      fromAssignment⟩,
    ⟨[(.qubit, 199)], [], []⟩,
    ⟨[(.identifier, 186), (.typeWord, 189)], [], [(.type, 200), (.typeName, 188)]⟩]

/-- States 138 to 183. -/
def statesFrom138 : List Row :=
  [⟨toOperand [(.identifier, 27)], [], (.expression, 201) :: fromAssignment⟩,
    ⟨toOperand [(.identifier, 27)], [], (.expression, 202) :: fromAssignment⟩,
    ⟨[(.asWord, 203)], [], []⟩,
    ⟨[(.colon, 204)], [], []⟩,
    ⟨[], [(.functionDeclaration, [.terminator])], []⟩,
    ⟨[], [(.functionBody, [.terminator])], []⟩,
    ⟨[(.terminator, 205)], [], []⟩,
    ⟨toStatement [(.hash, 26), (.identifier, 27)], [(.nothing, [.terminator])], viaStatement
      [(.blockBody, 206), (.statements, 151), (.element, 152), (.nothing, 153), (.statement, 144),
      (.expression, 29)]⟩,
    ⟨[(.closeParen, 207)], [], []⟩,
    ⟨[], [(.parenthesised, afterPostfixed)], []⟩,
    ⟨[(.closeParen, 208)], [], []⟩,
    ⟨[(.inWord, 209)], [], []⟩,
    ⟨[(.catchWord, 210), (.finallyWord, 211)], [(.tryAlone, [.terminator])], []⟩,
    ⟨[], [(.blockStatements, afterBlock)], []⟩,
    ⟨[], [(.blockElement, afterBlock)], []⟩,
    ⟨[], [(.blockEmpty, afterBlock)], []⟩,
    ⟨[(.terminator, 212)], [], []⟩,
    ⟨[(.identifier, 213)], [], [(.identifiers, 214)]⟩,
    ⟨[(.openParen, 158)], [], [(.parameterList, 215)]⟩,
    ⟨[(.colon, 217)], [(.nothing, [.terminator])], [(.returnType, 216), (.nothing, 218)]⟩,
    ⟨[(.identifier, 223)], [(.nothing, [.closeParen])],
      [(.parametersOpt, 219), (.parameters, 220), (.nothing, 221), (.parameter, 222)]⟩,
    ⟨[(.and, 103)], [(.disjunction, afterDisjunction)], []⟩,
    ⟨[(.same, 104), (.differs, 105)], [(.conjunction, afterConjunction)], []⟩,
    ⟨[(.less, 106), (.greater, 107), (.lessEqual, 108), (.greaterEqual, 109)], [(.equalitySame,
      afterEquality)], []⟩,
    ⟨[(.less, 106), (.greater, 107), (.lessEqual, 108), (.greaterEqual, 109)], [(.equalityDiffers,
      afterEquality)], []⟩,
    ⟨[(.plus, 110), (.minus, 111)], [(.relationLess, afterRelation)], []⟩,
    ⟨[(.plus, 110), (.minus, 111)], [(.relationGreater, afterRelation)], []⟩,
    ⟨[(.plus, 110), (.minus, 111)], [(.relationLessEqual, afterRelation)], []⟩,
    ⟨[(.plus, 110), (.minus, 111)], [(.relationGreaterEqual, afterRelation)], []⟩,
    ⟨[(.times, 112), (.divide, 113)], [(.sumPlus, afterSum)], []⟩,
    ⟨[(.times, 112), (.divide, 113)], [(.sumMinus, afterSum)], []⟩,
    ⟨[], [(.productTimes, afterProduct)], []⟩,
    ⟨[], [(.productDivide, afterProduct)], []⟩,
    ⟨[], [(.member, afterPostfixed)], []⟩,
    ⟨[(.closeParen, 224), (.comma, 225)], [], []⟩,
    ⟨[], [(.argumentsOne, [.comma, .closeParen])], []⟩,
    ⟨[], [(.argumentsAbsent, [.comma, .closeParen])], []⟩,
    ⟨[(.identifier, 226)], [], []⟩,
    ⟨[(.text, 227)], [], []⟩,
    ⟨[(.identifier, 228)], [(.closingUnnamed, [.endOfInput, .apply, .async, .await, .terminator,
      .boolean, .catchWord, .classWord, .connect, .const, .define, .delete, .elseWord, .finallyWord,
      .decimal, .forWord, .function, .hash, .ifWord, .integer, .openParen, .minus, .not, .query,
      .returnWord, .save, .showWord, .text, .throwWord, .transaction, .tryWord, .whileWord])],
      []⟩,
    ⟨[], [(.element, afterElement)], []⟩,
    ⟨toStatement [(.hash, 121), (.identifier, 27)], [], viaStatement [(.contentItems, 229),
      (.contentItem, 128), (.statement, 129), (.expression, 130), (.dynamicContent, 131)]⟩,
    ⟨[], [(.attributesMore, [.terminator, .hash, .identifier])], []⟩,
    ⟨[(.colon, 176)], [], []⟩,
    ⟨[], [(.contentMore, startOfStatement)], []⟩,
    ⟨[], [(.contentStatement, startOfStatement)], []⟩]

/-- States 184 to 229. -/
def statesFrom184 : List Row :=
  [⟨[], [(.contentExpression, startOfStatement)], []⟩,
    ⟨[], [(.contentDynamic, startOfStatement)], []⟩,
    ⟨[], [(.typeNameIdentifier, afterTypeName)], []⟩,
    ⟨[(.equals, 230)], [], []⟩,
    ⟨[(.less, 232)], [(.typePlain, afterType)], [(.genericArguments, 231)]⟩,
    ⟨[], [(.typeNameWord, afterTypeName)], []⟩,
    ⟨[], [(.variableUntyped, [.terminator])], []⟩,
    ⟨[(.typeWord, 234)], [], [(.keyKind, 233)]⟩,
    ⟨[(.fromWord, 235)], [], []⟩,
    ⟨[(.data, 236)], [], []⟩,
    ⟨[(.data, 237)], [], []⟩,
    ⟨[(.data, 238)], [], []⟩,
    ⟨[(.data, 239)], [], []⟩,
    ⟨[(.signature, 240)], [], []⟩,
    ⟨[(.identifier, 241)], [], []⟩,
    ⟨[], [(.qubit, [.terminator])], []⟩,
    ⟨[(.equals, 242)], [], []⟩,
    ⟨[], [(.constUntyped, [.terminator])], []⟩,
    ⟨[], [(.save, [.terminator])], []⟩,
    ⟨[(.identifier, 243)], [], []⟩,
    ⟨[(.text, 244)], [], []⟩,
    ⟨toStatement [(.identifier, 27)], [(.statementsLast, afterBlock)],
      viaStatement [(.statement, 144), (.statements, 245), (.expression, 29)]⟩,
    ⟨[], [(.classDeclaration, [.terminator])], []⟩,
    ⟨[(.terminator, 246)], [], []⟩,
    ⟨[(.terminator, 247)], [], []⟩,
    ⟨toOperand [(.identifier, 27)], [], (.expression, 248) :: fromAssignment⟩,
    ⟨[(.openParen, 249)], [], []⟩,
    ⟨[(.terminator, 250)], [], []⟩,
    ⟨toStatement [(.hash, 26), (.identifier, 27)], [(.nothing, [.terminator])], viaStatement
      [(.blockBody, 251), (.statements, 151), (.element, 152), (.nothing, 153), (.statement, 144),
      (.expression, 29)]⟩,
    ⟨[], [(.identifiersOne, [.terminator, .comma])], []⟩,
    ⟨[(.comma, 252)], [(.gate, [.terminator])], []⟩,
    ⟨[(.colon, 217)], [(.nothing, [.terminator])], [(.returnType, 253), (.nothing, 218)]⟩,
    ⟨[], [(.headPlain, [.terminator])], []⟩,
    ⟨[(.identifier, 186), (.typeWord, 189)], [], [(.type, 254), (.typeName, 188)]⟩,
    ⟨[], [(.returnVoid, [.terminator])], []⟩,
    ⟨[(.closeParen, 255)], [], []⟩,
    ⟨[(.comma, 256)], [(.parametersGiven, [.closeParen])], []⟩,
    ⟨[], [(.parametersAbsent, [.closeParen])], []⟩,
    ⟨[], [(.parametersOne, [.comma, .closeParen])], []⟩,
    ⟨[(.colon, 257)], [], []⟩,
    ⟨[], [(.call, afterPostfixed)], []⟩,
    ⟨toOperand [(.identifier, 27)], [], (.expression, 258) :: fromAssignment⟩,
    ⟨[(.closeParen, 259)], [], []⟩,
    ⟨[], [(.attributePair, [.terminator, .hash, .identifier])], []⟩,
    ⟨[], [(.closingNamed, afterElement)], []⟩,
    ⟨toStatement [(.identifier, 27)], [(.bodyBoth, [.hash])], viaStatement [(.contentItem, 182),
      (.statement, 129), (.expression, 130), (.dynamicContent, 131)]⟩]

/-- States 230 to 275. -/
def statesFrom230 : List Row :=
  [⟨toOperand [(.identifier, 27)], [], (.expression, 260) :: fromAssignment⟩,
    ⟨[], [(.typeGeneric, afterType)], []⟩,
    ⟨[(.identifier, 186), (.typeWord, 189)], [],
      [(.types, 261), (.type, 262), (.typeName, 188)]⟩,
    ⟨[(.comma, 264)], [(.nothing, [.terminator])], [(.settingsOpt, 263), (.nothing, 265)]⟩,
    ⟨[(.colon, 266)], [], []⟩,
    ⟨[(.identifier, 267)], [], []⟩,
    ⟨[(.colon, 268)], [], []⟩,
    ⟨[(.colon, 269)], [], []⟩,
    ⟨[(.colon, 270)], [], []⟩,
    ⟨[(.colon, 271)], [], []⟩,
    ⟨[(.colon, 272)], [], []⟩,
    ⟨[], [(.measurement, [.terminator])], []⟩,
    ⟨toOperand [(.identifier, 27)], [], (.expression, 273) :: fromAssignment⟩,
    ⟨[], [(.connect, [.terminator])], []⟩,
    ⟨[], [(.query, [.terminator])], []⟩,
    ⟨[], [(.statementsMore, afterBlock)], []⟩,
    ⟨toStatement [(.hash, 26), (.identifier, 27)], [(.nothing, [.terminator, .elseWord])],
      viaStatement
      [(.expression, 29), (.blockBody, 274), (.statements, 151), (.element, 152), (.nothing, 153),
      (.statement, 144)]⟩,
    ⟨toStatement [(.hash, 26), (.identifier, 27)], [(.nothing, [.terminator])], viaStatement
      [(.expression, 29), (.blockBody, 275), (.statements, 151), (.element, 152), (.nothing, 153),
      (.statement, 144)]⟩,
    ⟨[(.closeParen, 276)], [], []⟩,
    ⟨[(.identifier, 277)], [], []⟩,
    ⟨toStatement [(.hash, 26), (.identifier, 27)], [(.nothing, [.terminator])], viaStatement
      [(.blockBody, 278), (.statements, 151), (.element, 152), (.nothing, 153), (.statement, 144),
      (.expression, 29)]⟩,
    ⟨[(.terminator, 279)], [], []⟩,
    ⟨[(.identifier, 280)], [], []⟩,
    ⟨[], [(.headAsync, [.terminator])], []⟩,
    ⟨[], [(.returnTyped, [.terminator])], []⟩,
    ⟨[], [(.parameterList, [.terminator, .colon])], []⟩,
    ⟨[(.identifier, 223)], [], [(.parameter, 281)]⟩,
    ⟨[(.identifier, 186), (.typeWord, 189)], [], [(.type, 282), (.typeName, 188)]⟩,
    ⟨[], [(.argumentsMore, [.comma, .closeParen])], []⟩,
    ⟨[], [(.dynamicContent, [.terminator])], []⟩,
    ⟨[], [(.variableTyped, [.terminator])], []⟩,
    ⟨[(.greater, 283), (.comma, 284)], [], []⟩,
    ⟨[], [(.typesOne, [.comma, .greater])], []⟩,
    ⟨[], [(.keyGeneration, [.terminator])], []⟩,
    ⟨[(.identifier, 287), (.db, 288), (.size, 289), (.algorithm, 290), (.key, 291), (.data, 292),
      (.signature, 293)], [], [(.settings, 285), (.setting, 286)]⟩,
    ⟨[], [(.settingsAbsent, [.terminator])], []⟩,
    ⟨[(.text, 294)], [], []⟩,
    ⟨[], [(.publicKey, [.terminator])], []⟩,
    ⟨[(.text, 295)], [], []⟩,
    ⟨[(.text, 296)], [], []⟩,
    ⟨[(.text, 297)], [], []⟩,
    ⟨[(.text, 298)], [], []⟩,
    ⟨[(.text, 299)], [], []⟩,
    ⟨[], [(.constTyped, [.terminator])], []⟩,
    ⟨[(.elseWord, 300)], [(.ifAlone, [.terminator])], []⟩,
    ⟨[], [(.whileStatement, [.terminator])], []⟩]

/-- States 276 to 321. -/
def statesFrom276 : List Row :=
  [⟨[(.terminator, 301)], [], []⟩,
    ⟨[(.closeParen, 302)], [], []⟩,
    ⟨[], [(.tryFinally, [.terminator])], []⟩,
    ⟨[(.commit, 304), (.rollback, 305)], [], [(.transactionEnd, 303)]⟩,
    ⟨[], [(.identifiersMore, [.terminator, .comma])], []⟩,
    ⟨[], [(.parametersMore, [.comma, .closeParen])], []⟩,
    ⟨[], [(.parameter, [.comma, .closeParen])], []⟩,
    ⟨[], [(.genericArguments, afterType)], []⟩,
    ⟨[(.identifier, 186), (.typeWord, 189)], [], [(.type, 306), (.typeName, 188)]⟩,
    ⟨[(.comma, 307)], [(.settingsGiven, [.terminator])], []⟩,
    ⟨[], [(.settingsOne, [.terminator, .comma])], []⟩,
    ⟨[(.colon, 308)], [], []⟩,
    ⟨[(.colon, 309)], [], []⟩,
    ⟨[(.colon, 310)], [], []⟩,
    ⟨[(.colon, 311)], [], []⟩,
    ⟨[(.colon, 312)], [], []⟩,
    ⟨[(.colon, 313)], [], []⟩,
    ⟨[(.colon, 314)], [], []⟩,
    ⟨[], [(.keyKind, [.terminator, .comma])], []⟩,
    ⟨[(.withWord, 315)], [], []⟩,
    ⟨[(.withWord, 316)], [], []⟩,
    ⟨[(.algorithm, 317)], [], []⟩,
    ⟨[(.withWord, 318)], [], []⟩,
    ⟨[(.data, 319)], [], []⟩,
    ⟨[(.terminator, 320)], [], []⟩,
    ⟨toStatement [(.hash, 26), (.identifier, 27)], [(.nothing, [.terminator])], viaStatement
      [(.expression, 29), (.blockBody, 321), (.statements, 151), (.element, 152), (.nothing, 153),
      (.statement, 144)]⟩,
    ⟨[(.terminator, 322)], [], []⟩,
    ⟨[(.terminator, 323)], [], []⟩,
    ⟨[], [(.commit, [.terminator])], []⟩,
    ⟨[], [(.rollback, [.terminator])], []⟩,
    ⟨[], [(.typesMore, [.comma, .greater])], []⟩,
    ⟨[(.identifier, 287), (.db, 288), (.size, 289), (.algorithm, 290), (.key, 291), (.data, 292),
      (.signature, 293)], [], [(.setting, 324)]⟩,
    ⟨[(.text, 326), (.integer, 327)], [], [(.settingValue, 325)]⟩,
    ⟨[(.text, 326), (.integer, 327)], [], [(.settingValue, 328)]⟩,
    ⟨[(.text, 326), (.integer, 327)], [], [(.settingValue, 329)]⟩,
    ⟨[(.text, 326), (.integer, 327)], [], [(.settingValue, 330)]⟩,
    ⟨[(.text, 326), (.integer, 327)], [], [(.settingValue, 331)]⟩,
    ⟨[(.text, 326), (.integer, 327)], [], [(.settingValue, 332)]⟩,
    ⟨[(.text, 326), (.integer, 327)], [], [(.settingValue, 333)]⟩,
    ⟨[(.key, 334)], [], []⟩,
    ⟨[(.key, 335)], [], []⟩,
    ⟨[(.colon, 336)], [], []⟩,
    ⟨[(.key, 337)], [], []⟩,
    ⟨[(.colon, 338)], [], []⟩,
    ⟨toStatement [(.hash, 26), (.identifier, 27)], [(.nothing, [.terminator])], viaStatement
      [(.expression, 29), (.blockBody, 339), (.statements, 151), (.element, 152), (.nothing, 153),
      (.statement, 144)]⟩,
    ⟨[], [(.forStatement, [.terminator])], []⟩]

/-- States 322 to 367. -/
def statesFrom322 : List Row :=
  [⟨toStatement [(.hash, 26), (.identifier, 27)], [(.nothing, [.terminator, .finallyWord])],
    viaStatement
      [(.blockBody, 340), (.statements, 151), (.element, 152), (.nothing, 153), (.statement, 144),
      (.expression, 29)]⟩,
    ⟨[], [(.transaction, [.terminator])], []⟩,
    ⟨[], [(.settingsMore, [.terminator, .comma])], []⟩,
    ⟨[], [(.settingIdentifier, [.terminator, .comma])], []⟩,
    ⟨[], [(.settingText, [.terminator, .comma])], []⟩,
    ⟨[], [(.settingInteger, [.terminator, .comma])], []⟩,
    ⟨[], [(.settingDb, [.terminator, .comma])], []⟩,
    ⟨[], [(.settingSize, [.terminator, .comma])], []⟩,
    ⟨[], [(.settingAlgorithm, [.terminator, .comma])], []⟩,
    ⟨[], [(.settingKey, [.terminator, .comma])], []⟩,
    ⟨[], [(.settingData, [.terminator, .comma])], []⟩,
    ⟨[], [(.settingSignature, [.terminator, .comma])], []⟩,
    ⟨[(.colon, 341)], [], []⟩,
    ⟨[(.colon, 342)], [], []⟩,
    ⟨[(.text, 343)], [], []⟩,
    ⟨[(.colon, 344)], [], []⟩,
    ⟨[(.text, 345)], [], []⟩,
    ⟨[], [(.ifElse, [.terminator])], []⟩,
    ⟨[(.finallyWord, 346)], [(.tryCatch, [.terminator])], []⟩,
    ⟨[(.text, 347)], [], []⟩,
    ⟨[(.text, 348)], [], []⟩,
    ⟨[], [(.hashing, [.terminator])], []⟩,
    ⟨[(.text, 349)], [], []⟩,
    ⟨[(.withWord, 350)], [], []⟩,
    ⟨[(.terminator, 351)], [], []⟩,
    ⟨[(.algorithm, 352)], [], []⟩,
    ⟨[(.algorithm, 353)], [], []⟩,
    ⟨[(.algorithm, 354)], [], []⟩,
    ⟨[(.key, 355)], [], []⟩,
    ⟨toStatement [(.hash, 26), (.identifier, 27)], [(.nothing, [.terminator])], viaStatement
      [(.blockBody, 356), (.statements, 151), (.element, 152), (.nothing, 153), (.statement, 144),
      (.expression, 29)]⟩,
    ⟨[(.colon, 357)], [], []⟩,
    ⟨[(.colon, 358)], [], []⟩,
    ⟨[(.colon, 359)], [], []⟩,
    ⟨[(.colon, 360)], [], []⟩,
    ⟨[], [(.tryCatchFinally, [.terminator])], []⟩,
    ⟨[(.text, 361)], [], []⟩,
    ⟨[(.text, 362)], [], []⟩,
    ⟨[(.text, 363)], [], []⟩,
    ⟨[(.text, 364)], [], []⟩,
    ⟨[], [(.encryption, [.terminator])], []⟩,
    ⟨[], [(.decryption, [.terminator])], []⟩,
    ⟨[], [(.signing, [.terminator])], []⟩,
    ⟨[(.algorithm, 365)], [], []⟩,
    ⟨[(.colon, 366)], [], []⟩,
    ⟨[(.text, 367)], [], []⟩,
    ⟨[], [(.verification, [.terminator])], []⟩]

/-- All states. A run begins in state zero. -/
@[irreducible]
def rows : Array Row :=
  (statesFrom0 ++ statesFrom46 ++ statesFrom92 ++ statesFrom138 ++ statesFrom184 ++ statesFrom230 ++
    statesFrom276 ++ statesFrom322).toArray

/-- What the automaton does next. -/
inductive Action where
  | shift (state : Nat)
  | reduce (rule : Rule)
  | accept
  deriving Repr, DecidableEq

/-- The state that holds a whole program. -/
def programState : Nat := 1

/-- What a state does before a token. -/
def action? (state : Nat) (kind : Terminal) : Option Action :=
  if state = programState ∧ kind = .endOfInput then some .accept
  else do
    let row ← rows[state]?
    match row.shifts.lookup kind with
    | some target => some (.shift target)
    | none => (row.reductions.find? (·.2.contains kind)).map (.reduce ·.1)

/-- The rule of a state that can only reduce by one rule before one token. Such
a state reduces without looking at the token. -/
def default? (state : Nat) : Option Rule := do
  let row ← rows[state]?
  match row.shifts, row.reductions with
  | [], [(rule, [_])] => some rule
  | _, _ => none

/-- Where a phrase leads. -/
def goto? (state : Nat) (phrase : Nonterminal) : Option Nat := do
  let row ← rows[state]?
  row.gotos.lookup phrase

end PageScript.Automaton
