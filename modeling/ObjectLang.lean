import ObjectLang.Code.Printer
import ObjectLang.Compilation
import ObjectLang.Execution.Session
import ObjectLang.Proofs.Assignability
import ObjectLang.Proofs.DivergingBlocks
import ObjectLang.Proofs.HeapOperations
import ObjectLang.Proofs.Inference
import ObjectLang.Proofs.LinkNames
import ObjectLang.Proofs.Literals
import ObjectLang.Proofs.LocalNames
import ObjectLang.Proofs.ParentLinks
import ObjectLang.Proofs.Preservation
import ObjectLang.Proofs.SlotSignatures
import ObjectLang.Proofs.TypeNames
import ObjectLang.Proofs.WellFormedFunctions
import ObjectLang.Source.SymbolTable
