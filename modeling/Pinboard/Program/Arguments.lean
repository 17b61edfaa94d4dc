import Pinboard.Board

/-! The arguments of the command line. Flags are known only before the word of the command; what follows it
    belongs to the command, whatever it looks like. -/

namespace Pinboard.Program

/-- A command with its operands. -/
inductive Command
  | put (key value : String)
  | get (key : String)
  | ping
  deriving DecidableEq, Repr

/-- What the arguments ask for. -/
inductive Invocation
  | version
  | help
  | run (appId : String) (command : Command)
  deriving DecidableEq, Repr

/-- What is wrong with the arguments. -/
inductive ArgumentFault
  | noAppId
  | unknownFlag (flag : String)
  | missing (operand : String)
  | unknownCommand (word : String)
  | unexpected (argument : String)
  deriving DecidableEq, Repr

/-- The fault in words. -/
def ArgumentFault.text : ArgumentFault → String
  | .noAppId => "--app-id needs a value"
  | .unknownFlag flag => "unknown flag: " ++ flag
  | .missing operand => "missing " ++ operand
  | .unknownCommand word => "unknown command: " ++ word
  | .unexpected argument => "unexpected argument: " ++ argument

/-- A command that is complete takes no further argument. -/
def Command.alone (c : Command) : List String → Except ArgumentFault Command
  | [] => .ok c
  | extra :: _ => .error (.unexpected extra)

/-- The command of a word and the arguments after it. -/
def Command.parse (word : String) (operands : List String) : Except ArgumentFault Command :=
  if word = "put" then
    match operands with
    | [] => .error (.missing "key")
    | [_] => .error (.missing "value")
    | key :: value :: rest => (Command.put key value).alone rest
  else if word = "get" then
    match operands with
    | [] => .error (.missing "key")
    | key :: rest => (Command.get key).alone rest
  else if word = "ping" then Command.ping.alone operands
  else .error (.unknownCommand word)

/-- The argument looks like a flag. -/
def isFlag (argument : String) : Bool := argument.toList.head? = some '-'

/-- What the arguments ask for, where `appId` is the application chosen so far. -/
def Invocation.parseFrom (appId : String) : List String → Except ArgumentFault Invocation
  | [] => .ok .help
  | word :: rest =>
    if word = "--version" ∨ word = "-v" then .ok .version
    else if word = "--help" ∨ word = "-h" then .ok .help
    else if word = "--app-id" then
      match rest with
      | [] => .error .noAppId
      | chosen :: rest => parseFrom chosen rest
    else if isFlag word then .error (.unknownFlag word)
    else (Command.parse word rest).map (.run appId)

/-- What the arguments ask for. The last application that is chosen counts. -/
def Invocation.parse (arguments : List String) : Except ArgumentFault Invocation :=
  parseFrom Board.defaultAppId arguments

end Pinboard.Program
