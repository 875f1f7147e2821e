import PageScript.Token.Basic

/-! The grammar of scripts, as data: the symbols, the rules and what each rule
joins. -/
namespace PageScript

/-- The phrases of the grammar. -/
inductive Nonterminal where
  | program | items | item | nothing | statements | blockBody | statement | variableDeclaration
  | constDeclaration | showStatement | saveStatement | deleteStatement | returnStatement
  | throwStatement | expressionStatement | connectStatement | queryStatement | ifStatement
  | whileStatement | forStatement | tryStatement | transaction | transactionEnd
  | functionDeclaration | functionHead | functionBody | parameterList | parametersOpt | parameters
  | parameter | returnType | classDeclaration | type | typeName | genericArguments | types
  | cryptoStatement | keyGeneration | publicKey | encryption | decryption | hashing | signing
  | verification | keyKind | settingsOpt | settings | setting | settingValue | quantumStatement
  | qubitDeclaration | gateApplication | measurement | identifiers | element | elementBody
  | emptyBody | attributes | attributePair | contentItems | contentItem | dynamicContent
  | closingTag | expression | assignment | disjunction | conjunction | equality | relation | sum
  | product | unary | postfixed | primary | arguments
  deriving Repr, DecidableEq, Inhabited

/-- A symbol of the grammar: a token kind or a phrase. -/
inductive GrammarSymbol where
  | t (kind : Terminal)
  | n (phrase : Nonterminal)
  deriving Repr, DecidableEq, Inhabited

/-- The rules of the grammar. -/
inductive Rule where
  | programItems | programTerminated | programEmpty | itemsMore | itemsOne | itemStatement
  | itemElement | nothing | statementsLast | statementsMore | blockStatements | blockElement
  | blockEmpty | statementVariable | statementConst | statementShow | statementSave
  | statementDelete | statementReturn | statementThrow | statementConnect | statementQuery
  | statementCrypto | statementQuantum | statementExpression | statementFunction | statementClass
  | statementIf | statementWhile | statementFor | statementTry | statementTransaction
  | variableTyped | variableUntyped | constTyped | constUntyped | showStatement | save | delete
  | returnValue | returnNothing | throwStatement | expressionStatement | connect | query | ifElse
  | ifAlone | whileStatement | forStatement | tryAlone | tryCatch | tryCatchFinally | tryFinally
  | transaction | commit | rollback | functionDeclaration | headAsync | headPlain | functionBody
  | parameterList | parametersGiven | parametersAbsent | parametersMore | parametersOne | parameter
  | returnTyped | returnVoid | classDeclaration | typePlain | typeGeneric | typeNameIdentifier
  | typeNameWord | genericArguments | typesOne | typesMore | cryptoKey | cryptoPublicKey
  | cryptoEncryption | cryptoDecryption | cryptoHashing | cryptoSigning | cryptoVerification
  | keyGeneration | publicKey | encryption | decryption | hashing | signing | verification | keyKind
  | settingsGiven | settingsAbsent | settingsMore | settingsOne | settingIdentifier | settingDb
  | settingSize | settingAlgorithm | settingKey | settingData | settingSignature | settingText
  | settingInteger | quantumQubit | quantumGate | quantumMeasurement | qubit | gate | measurement
  | identifiersOne | identifiersMore | element | bodyBoth | bodyAttributes | bodyContent | bodyEmpty
  | emptyBody | attributesMore | attributesOne | attributePair | contentMore | contentOne
  | contentStatement | contentExpression | contentDynamic | dynamicContent | closingUnnamed
  | closingNamed | expression | assignSum | assign | assignmentPlain | disjunction
  | disjunctionPlain | conjunction | conjunctionPlain | equalitySame | equalityDiffers
  | equalityPlain | relationLess | relationGreater | relationLessEqual | relationGreaterEqual
  | relationPlain | sumPlus | sumMinus | sumPlain | productTimes | productDivide | productPlain
  | negation | awaiting | unaryPlain | member | call | postfixedPlain | integer | decimal | text
  | boolean | identifier | parenthesised | negativeInteger | negativeDecimal | argumentsOne
  | argumentsMore | argumentsAbsent
  deriving Repr, DecidableEq, Inhabited

namespace Rule

open GrammarSymbol

/-- A rule: the phrase it makes and the symbols it joins. -/
structure Production where
  phrase : Nonterminal
  symbols : List GrammarSymbol
  deriving Repr, DecidableEq

/-- What each rule makes, and of what. -/
def production : Rule → Production
  | programItems => ⟨.program, [n .items]⟩
  | programTerminated => ⟨.program, [n .items, t .terminator]⟩
  | programEmpty => ⟨.program, [n .nothing]⟩
  | itemsMore => ⟨.items, [n .items, n .item]⟩
  | itemsOne => ⟨.items, [n .item]⟩
  | itemStatement => ⟨.item, [n .statement, t .terminator]⟩
  | itemElement => ⟨.item, [n .element]⟩
  | nothing => ⟨.nothing, []⟩
  | statementsLast => ⟨.statements, [n .statement, t .terminator]⟩
  | statementsMore => ⟨.statements, [n .statement, t .terminator, n .statements]⟩
  | blockStatements => ⟨.blockBody, [n .statements]⟩
  | blockElement => ⟨.blockBody, [n .element]⟩
  | blockEmpty => ⟨.blockBody, [n .nothing]⟩
  | statementVariable => ⟨.statement, [n .variableDeclaration]⟩
  | statementConst => ⟨.statement, [n .constDeclaration]⟩
  | statementShow => ⟨.statement, [n .showStatement]⟩
  | statementSave => ⟨.statement, [n .saveStatement]⟩
  | statementDelete => ⟨.statement, [n .deleteStatement]⟩
  | statementReturn => ⟨.statement, [n .returnStatement]⟩
  | statementThrow => ⟨.statement, [n .throwStatement]⟩
  | statementConnect => ⟨.statement, [n .connectStatement]⟩
  | statementQuery => ⟨.statement, [n .queryStatement]⟩
  | statementCrypto => ⟨.statement, [n .cryptoStatement]⟩
  | statementQuantum => ⟨.statement, [n .quantumStatement]⟩
  | statementExpression => ⟨.statement, [n .expressionStatement]⟩
  | statementFunction => ⟨.statement, [n .functionDeclaration]⟩
  | statementClass => ⟨.statement, [n .classDeclaration]⟩
  | statementIf => ⟨.statement, [n .ifStatement]⟩
  | statementWhile => ⟨.statement, [n .whileStatement]⟩
  | statementFor => ⟨.statement, [n .forStatement]⟩
  | statementTry => ⟨.statement, [n .tryStatement]⟩
  | statementTransaction => ⟨.statement, [n .transaction]⟩
  | variableTyped => ⟨.variableDeclaration,
    [t .define, t .identifier, t .colon, n .type, t .equals, n .expression]⟩
  | variableUntyped =>
    ⟨.variableDeclaration, [t .define, t .identifier, t .equals, n .expression]⟩
  | constTyped =>
    ⟨.constDeclaration, [t .const, t .identifier, t .colon, n .type, t .equals, n .expression]⟩
  | constUntyped => ⟨.constDeclaration, [t .const, t .identifier, t .equals, n .expression]⟩
  | showStatement => ⟨.showStatement, [t .showWord, n .expression]⟩
  | save => ⟨.saveStatement, [t .save, t .identifier, t .equals, n .expression]⟩
  | delete => ⟨.deleteStatement, [t .delete, t .identifier]⟩
  | returnValue => ⟨.returnStatement, [t .returnWord, n .expression]⟩
  | returnNothing => ⟨.returnStatement, [t .returnWord]⟩
  | throwStatement => ⟨.throwStatement, [t .throwWord, n .expression]⟩
  | expressionStatement => ⟨.expressionStatement, [n .expression]⟩
  | connect => ⟨.connectStatement, [t .connect, t .toWord, t .text, t .asWord, t .identifier]⟩
  | query => ⟨.queryStatement, [t .query, t .onWord, t .identifier, t .colon, t .text]⟩
  | ifElse => ⟨.ifStatement,
    [t .ifWord, t .openParen, n .expression, t .closeParen, t .terminator, n .blockBody,
      t .elseWord, t .terminator, n .blockBody]⟩
  | ifAlone => ⟨.ifStatement,
    [t .ifWord, t .openParen, n .expression, t .closeParen, t .terminator, n .blockBody]⟩
  | whileStatement => ⟨.whileStatement,
    [t .whileWord, t .openParen, n .expression, t .closeParen, t .terminator, n .blockBody]⟩
  | forStatement => ⟨.forStatement,
    [t .forWord, t .openParen, t .identifier, t .inWord, n .expression, t .closeParen,
      t .terminator, n .blockBody]⟩
  | tryAlone => ⟨.tryStatement, [t .tryWord, t .terminator, n .blockBody]⟩
  | tryCatch => ⟨.tryStatement,
    [t .tryWord, t .terminator, n .blockBody, t .catchWord, t .openParen, t .identifier,
      t .closeParen, t .terminator, n .blockBody]⟩
  | tryCatchFinally => ⟨.tryStatement,
    [t .tryWord, t .terminator, n .blockBody, t .catchWord, t .openParen, t .identifier,
      t .closeParen, t .terminator, n .blockBody, t .finallyWord, t .terminator, n .blockBody]⟩
  | tryFinally => ⟨.tryStatement,
    [t .tryWord, t .terminator, n .blockBody, t .finallyWord, t .terminator, n .blockBody]⟩
  | transaction => ⟨.transaction,
    [t .transaction, t .onWord, t .identifier, t .terminator, n .blockBody, t .terminator,
      n .transactionEnd, t .terminator]⟩
  | commit => ⟨.transactionEnd, [t .commit]⟩
  | rollback => ⟨.transactionEnd, [t .rollback]⟩
  | functionDeclaration =>
    ⟨.functionDeclaration, [n .functionHead, t .terminator, n .functionBody]⟩
  | headAsync =>
    ⟨.functionHead, [t .async, t .function, t .identifier, n .parameterList, n .returnType]⟩
  | headPlain => ⟨.functionHead, [t .function, t .identifier, n .parameterList, n .returnType]⟩
  | functionBody => ⟨.functionBody, [n .statements]⟩
  | parameterList => ⟨.parameterList, [t .openParen, n .parametersOpt, t .closeParen]⟩
  | parametersGiven => ⟨.parametersOpt, [n .parameters]⟩
  | parametersAbsent => ⟨.parametersOpt, [n .nothing]⟩
  | parametersMore => ⟨.parameters, [n .parameters, t .comma, n .parameter]⟩
  | parametersOne => ⟨.parameters, [n .parameter]⟩
  | parameter => ⟨.parameter, [t .identifier, t .colon, n .type]⟩
  | returnTyped => ⟨.returnType, [t .colon, n .type]⟩
  | returnVoid => ⟨.returnType, [n .nothing]⟩
  | classDeclaration =>
    ⟨.classDeclaration, [t .classWord, t .identifier, t .terminator, n .blockBody]⟩
  | typePlain => ⟨.type, [n .typeName]⟩
  | typeGeneric => ⟨.type, [n .typeName, n .genericArguments]⟩
  | typeNameIdentifier => ⟨.typeName, [t .identifier]⟩
  | typeNameWord => ⟨.typeName, [t .typeWord]⟩
  | genericArguments => ⟨.genericArguments, [t .less, n .types, t .greater]⟩
  | typesOne => ⟨.types, [n .type]⟩
  | typesMore => ⟨.types, [n .types, t .comma, n .type]⟩
  | cryptoKey => ⟨.cryptoStatement, [n .keyGeneration]⟩
  | cryptoPublicKey => ⟨.cryptoStatement, [n .publicKey]⟩
  | cryptoEncryption => ⟨.cryptoStatement, [n .encryption]⟩
  | cryptoDecryption => ⟨.cryptoStatement, [n .decryption]⟩
  | cryptoHashing => ⟨.cryptoStatement, [n .hashing]⟩
  | cryptoSigning => ⟨.cryptoStatement, [n .signing]⟩
  | cryptoVerification => ⟨.cryptoStatement, [n .verification]⟩
  | keyGeneration => ⟨.keyGeneration,
    [t .define, t .identifier, t .equals, t .generateKey, n .keyKind, n .settingsOpt]⟩
  | publicKey => ⟨.publicKey,
    [t .define, t .identifier, t .equals, t .derivePublicKey, t .fromWord, t .identifier]⟩
  | encryption => ⟨.encryption,
    [t .define, t .identifier, t .equals, t .encrypt, t .data, t .colon, t .text,
      t .withWord, t .key, t .colon, t .text, t .algorithm, t .colon, t .text]⟩
  | decryption => ⟨.decryption,
    [t .define, t .identifier, t .equals, t .decrypt, t .data, t .colon, t .text,
      t .withWord, t .key, t .colon, t .text, t .algorithm, t .colon, t .text]⟩
  | hashing => ⟨.hashing,
    [t .define, t .identifier, t .equals, t .hash, t .data, t .colon, t .text,
      t .algorithm, t .colon, t .text]⟩
  | signing => ⟨.signing,
    [t .define, t .identifier, t .equals, t .sign, t .data, t .colon, t .text, t .withWord, t .key,
    t .colon, t .text, t .algorithm, t .colon, t .text]⟩
  | verification => ⟨.verification,
    [t .define, t .identifier, t .equals, t .verify, t .signature, t .colon, t .text,
      t .data, t .colon, t .text, t .withWord, t .key, t .colon, t .text, t .algorithm,
      t .colon, t .text]⟩
  | keyKind => ⟨.keyKind, [t .typeWord, t .colon, t .text]⟩
  | settingsGiven => ⟨.settingsOpt, [t .comma, n .settings]⟩
  | settingsAbsent => ⟨.settingsOpt, [n .nothing]⟩
  | settingsMore => ⟨.settings, [n .settings, t .comma, n .setting]⟩
  | settingsOne => ⟨.settings, [n .setting]⟩
  | settingIdentifier => ⟨.setting, [t .identifier, t .colon, n .settingValue]⟩
  | settingDb => ⟨.setting, [t .db, t .colon, n .settingValue]⟩
  | settingSize => ⟨.setting, [t .size, t .colon, n .settingValue]⟩
  | settingAlgorithm => ⟨.setting, [t .algorithm, t .colon, n .settingValue]⟩
  | settingKey => ⟨.setting, [t .key, t .colon, n .settingValue]⟩
  | settingData => ⟨.setting, [t .data, t .colon, n .settingValue]⟩
  | settingSignature => ⟨.setting, [t .signature, t .colon, n .settingValue]⟩
  | settingText => ⟨.settingValue, [t .text]⟩
  | settingInteger => ⟨.settingValue, [t .integer]⟩
  | quantumQubit => ⟨.quantumStatement, [n .qubitDeclaration]⟩
  | quantumGate => ⟨.quantumStatement, [n .gateApplication]⟩
  | quantumMeasurement => ⟨.quantumStatement, [n .measurement]⟩
  | qubit => ⟨.qubitDeclaration, [t .define, t .identifier, t .asWord, t .qubit]⟩
  | gate => ⟨.gateApplication, [t .apply, t .identifier, t .onWord, n .identifiers]⟩
  | measurement =>
    ⟨.measurement, [t .define, t .identifier, t .equals, t .measure, t .identifier]⟩
  | identifiersOne => ⟨.identifiers, [t .identifier]⟩
  | identifiersMore => ⟨.identifiers, [n .identifiers, t .comma, t .identifier]⟩
  | element => ⟨.element, [t .hash, t .identifier, n .elementBody, n .closingTag]⟩
  | bodyBoth => ⟨.elementBody, [n .attributes, t .terminator, n .contentItems]⟩
  | bodyAttributes => ⟨.elementBody, [n .attributes]⟩
  | bodyContent => ⟨.elementBody, [n .contentItems]⟩
  | bodyEmpty => ⟨.elementBody, [n .emptyBody]⟩
  | emptyBody => ⟨.emptyBody, []⟩
  | attributesMore => ⟨.attributes, [n .attributes, n .attributePair]⟩
  | attributesOne => ⟨.attributes, [n .attributePair]⟩
  | attributePair => ⟨.attributePair, [t .identifier, t .colon, t .text]⟩
  | contentMore => ⟨.contentItems, [n .contentItems, n .contentItem]⟩
  | contentOne => ⟨.contentItems, [n .contentItem]⟩
  | contentStatement => ⟨.contentItem, [n .statement, t .terminator]⟩
  | contentExpression => ⟨.contentItem, [n .expression, t .terminator]⟩
  | contentDynamic => ⟨.contentItem, [n .dynamicContent, t .terminator]⟩
  | dynamicContent => ⟨.dynamicContent, [t .hash, t .openParen, t .identifier, t .closeParen]⟩
  | closingUnnamed => ⟨.closingTag, [t .hash]⟩
  | closingNamed => ⟨.closingTag, [t .hash, t .identifier]⟩
  | expression => ⟨.expression, [n .assignment]⟩
  | assignSum => ⟨.assignment, [t .identifier, t .plusEquals, n .expression]⟩
  | assign => ⟨.assignment, [t .identifier, t .equals, n .expression]⟩
  | assignmentPlain => ⟨.assignment, [n .disjunction]⟩
  | disjunction => ⟨.disjunction, [n .disjunction, t .or, n .conjunction]⟩
  | disjunctionPlain => ⟨.disjunction, [n .conjunction]⟩
  | conjunction => ⟨.conjunction, [n .conjunction, t .and, n .equality]⟩
  | conjunctionPlain => ⟨.conjunction, [n .equality]⟩
  | equalitySame => ⟨.equality, [n .equality, t .same, n .relation]⟩
  | equalityDiffers => ⟨.equality, [n .equality, t .differs, n .relation]⟩
  | equalityPlain => ⟨.equality, [n .relation]⟩
  | relationLess => ⟨.relation, [n .relation, t .less, n .sum]⟩
  | relationGreater => ⟨.relation, [n .relation, t .greater, n .sum]⟩
  | relationLessEqual => ⟨.relation, [n .relation, t .lessEqual, n .sum]⟩
  | relationGreaterEqual => ⟨.relation, [n .relation, t .greaterEqual, n .sum]⟩
  | relationPlain => ⟨.relation, [n .sum]⟩
  | sumPlus => ⟨.sum, [n .sum, t .plus, n .product]⟩
  | sumMinus => ⟨.sum, [n .sum, t .minus, n .product]⟩
  | sumPlain => ⟨.sum, [n .product]⟩
  | productTimes => ⟨.product, [n .product, t .times, n .unary]⟩
  | productDivide => ⟨.product, [n .product, t .divide, n .unary]⟩
  | productPlain => ⟨.product, [n .unary]⟩
  | negation => ⟨.unary, [t .not, n .unary]⟩
  | awaiting => ⟨.unary, [t .await, n .unary]⟩
  | unaryPlain => ⟨.unary, [n .postfixed]⟩
  | member => ⟨.postfixed, [n .postfixed, t .dot, t .identifier]⟩
  | call => ⟨.postfixed, [n .postfixed, t .openParen, n .arguments, t .closeParen]⟩
  | postfixedPlain => ⟨.postfixed, [n .primary]⟩
  | integer => ⟨.primary, [t .integer]⟩
  | decimal => ⟨.primary, [t .decimal]⟩
  | text => ⟨.primary, [t .text]⟩
  | boolean => ⟨.primary, [t .boolean]⟩
  | identifier => ⟨.primary, [t .identifier]⟩
  | parenthesised => ⟨.primary, [t .openParen, n .expression, t .closeParen]⟩
  | negativeInteger => ⟨.primary, [t .minus, t .integer]⟩
  | negativeDecimal => ⟨.primary, [t .minus, t .decimal]⟩
  | argumentsOne => ⟨.arguments, [n .expression]⟩
  | argumentsMore => ⟨.arguments, [n .arguments, t .comma, n .expression]⟩
  | argumentsAbsent => ⟨.arguments, [n .nothing]⟩

/-- How many symbols the rule joins. -/
def size (r : Rule) : Nat :=
  r.production.symbols.length

end Rule

end PageScript
