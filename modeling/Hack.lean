import Hack.Asm.Error
import Hack.Asm.Listing
import Hack.Asm.Session
import Hack.Asm.Stmt
import Hack.Asm.SymbolTable
import Hack.Cli.Args
import Hack.Cli.Assembler
import Hack.Cli.Emulator
import Hack.Cli.Tool
import Hack.Cli.Translator
import Hack.Diagnostic
import Hack.Files.Directory
import Hack.Files.Error
import Hack.Files.Host
import Hack.Files.Path
import Hack.Isa.Alu
import Hack.Isa.Comp
import Hack.Isa.Dest
import Hack.Isa.Inst
import Hack.Isa.Jump
import Hack.Isa.Styled
import Hack.Isa.Symbol
import Hack.Machine.Rom
import Hack.Machine.Setup
import Hack.Machine.State
import Hack.Machine.Trace
import Hack.Main
import Hack.Text.Blank
import Hack.Text.Comment
import Hack.Text.Lines
import Hack.Text.Numeral
import Hack.Text.Quoted
import Hack.Text.Split
import Hack.Text.Style
import Hack.Toolchain
import Hack.Vm.Code
import Hack.Vm.Command
import Hack.Vm.Emitter
import Hack.Vm.Error
import Hack.Vm.Listing
import Hack.Vm.Scope
import Hack.Vm.Translate
import Hack.Yaml.Decode
import Hack.Yaml.Node
import Hack.Yaml.Reader
import Hack.Proofs.Words
import Hack.Proofs.AsmReference
import Hack.Proofs.AsmPasses
import Hack.Proofs.Execution
import Hack.Proofs.CallingConvention
import Hack.Proofs.Naming
import Hack.Proofs.AsmLabels
import Hack.Proofs.EmittedText
import Hack.Proofs.LabelUniqueness
import Hack.Proofs.Arithmetic
import Hack.Proofs.CommandEffect
import Hack.Proofs.ToolOutput
import Hack.Proofs.StatementText
import Hack.Proofs.ProgramText
import Hack.Proofs.AsmOutcome
import Hack.Proofs.TranslationAssembly
import Hack.Proofs.StaticMemory
import Hack.Proofs.StatementGrammar
import Hack.Proofs.CommandGrammar
import Hack.Proofs.ReaderState
import Hack.Proofs.Decoding
import Hack.Proofs.HaltDetection
import Hack.Proofs.BinaryText
import Hack.Proofs.Bounds
import Hack.Proofs.Layout
import Hack.Proofs.Simulation
