import ProxyTrace.Proofs.Coercion
import ProxyTrace.Proofs.Construction
import ProxyTrace.Proofs.Conversion
import ProxyTrace.Proofs.ElementType
import ProxyTrace.Proofs.FreshNames
import ProxyTrace.Proofs.GenericHook
import ProxyTrace.Proofs.HandedBack
import ProxyTrace.Proofs.Indexing
import ProxyTrace.Proofs.KnownOperands
import ProxyTrace.Proofs.Machine.Arithmetic
import ProxyTrace.Proofs.MatrixProduct
import ProxyTrace.Proofs.NestedScript
import ProxyTrace.Proofs.Number.Division
import ProxyTrace.Proofs.Number.Exact
import ProxyTrace.Proofs.Number.Hash
import ProxyTrace.Proofs.Number.Overflow
import ProxyTrace.Proofs.Number.Power
import ProxyTrace.Proofs.Number.Shifts
import ProxyTrace.Proofs.Number.ZeroDivision
import ProxyTrace.Proofs.Opacity
import ProxyTrace.Proofs.Recorder.Kinds
import ProxyTrace.Proofs.Renaming
import ProxyTrace.Proofs.Reshape
import ProxyTrace.Proofs.SingleAssignment
import ProxyTrace.Proofs.Slice
import ProxyTrace.Proofs.Spelling
import ProxyTrace.Proofs.TracedInputs
import ProxyTrace.Proofs.ValueIndependence
import ProxyTrace.Proofs.WellFormed
import ProxyTrace.Variable
