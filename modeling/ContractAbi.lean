import ContractAbi.Binding.Encoding
import ContractAbi.Cell.Scan
import ContractAbi.Files.System
import ContractAbi.Main
import ContractAbi.Proofs.Address.Base64
import ContractAbi.Proofs.Address.Checksum
import ContractAbi.Proofs.Address.Forms
import ContractAbi.Proofs.Address.Mistyping
import ContractAbi.Proofs.Binding.AddedRecords
import ContractAbi.Proofs.Binding.Alike
import ContractAbi.Proofs.Binding.DataTypes
import ContractAbi.Proofs.Binding.DistinctBodies
import ContractAbi.Proofs.Binding.Fields
import ContractAbi.Proofs.Binding.Names
import ContractAbi.Proofs.Binding.Sends
import ContractAbi.Proofs.Cell.Built
import ContractAbi.Proofs.Cell.Depth
import ContractAbi.Proofs.Cell.Filling
import ContractAbi.Proofs.Cell.Hashing
import ContractAbi.Proofs.Cell.Packing
import ContractAbi.Proofs.Cell.Positions
import ContractAbi.Proofs.Cell.RoundTrip
import ContractAbi.Proofs.Cell.Scanning
import ContractAbi.Proofs.Cell.TextChain
import ContractAbi.Proofs.Cell.TextReading
import ContractAbi.Proofs.Cell.TextTail
import ContractAbi.Proofs.Cell.VarUInt
import ContractAbi.Proofs.Cell.Words
import ContractAbi.Proofs.Cell.WordsAsNumbers
import ContractAbi.Proofs.Code.Bundle
import ContractAbi.Proofs.Code.Renaming
import ContractAbi.Proofs.Contract.DefaultBody
import ContractAbi.Proofs.Contract.Defaults
import ContractAbi.Proofs.Contract.OpcodeCheck
import ContractAbi.Proofs.Contract.Payload
import ContractAbi.Proofs.Contract.Query
import ContractAbi.Proofs.Contract.ReadBack
import ContractAbi.Proofs.Generation.Batch
import ContractAbi.Proofs.Generation.Output
import ContractAbi.Proofs.Inheritance.Ancestors
import ContractAbi.Proofs.Inheritance.Breaking
import ContractAbi.Proofs.Inheritance.Inherited
import ContractAbi.Proofs.Inheritance.Lineage
import ContractAbi.Proofs.Inheritance.Order
import ContractAbi.Proofs.Inheritance.References
import ContractAbi.Proofs.Naming.Claims
import ContractAbi.Proofs.Naming.ModuleName
import ContractAbi.Proofs.Probe.Ancestors
import ContractAbi.Proofs.Probe.Check
import ContractAbi.Proofs.Probe.Concurrent
import ContractAbi.Proofs.Probe.Detection
import ContractAbi.Proofs.Probe.Memoryless
import ContractAbi.Proofs.Probe.Registered
import ContractAbi.Proofs.Schema.Grammar
import ContractAbi.Proofs.Schema.Lint
import ContractAbi.Proofs.Schema.Reread
import ContractAbi.Proofs.Schema.TypeSpacing
import ContractAbi.Proofs.Schema.TypeText
import ContractAbi.Proofs.Schema.Widths
import ContractAbi.Proofs.Session.Interleaving
import ContractAbi.Proofs.Text.Decimal
import ContractAbi.Proofs.Wire.Generated
import ContractAbi.Proofs.Wire.Normal
import ContractAbi.Proofs.Wire.Reading
import ContractAbi.Proofs.Wire.Widths
import ContractAbi.Session.Script
