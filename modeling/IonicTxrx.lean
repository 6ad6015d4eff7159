import IonicTxrx.Ring
import IonicTxrx.Kernel
import IonicTxrx.Coal
import IonicTxrx.Cq
import IonicTxrx.Tx.Types
import IonicTxrx.Tx.Map
import IonicTxrx.Tx.Tso
import IonicTxrx.Tx.Xmit
import IonicTxrx.Tx.Clean
import IonicTxrx.Tx.View
import IonicTxrx.Tx.Run
import IonicTxrx.Tx.Sg
import IonicTxrx.Tx.Doorbell
import IonicTxrx.Tx.Wake
import IonicTxrx.Tx.Service
import IonicTxrx.Tx.TsoPost
import IonicTxrx.Tx.Napi
import IonicTxrx.Tx.Own
import IonicTxrx.Tx.Dma
import IonicTxrx.Tx.Fifo
import IonicTxrx.Rx.Types
import IonicTxrx.Rx.Buf
import IonicTxrx.Rx.Clean
import IonicTxrx.Rx.Fill
import IonicTxrx.Rx.Frags
import IonicTxrx.Rx.Pages
import IonicTxrx.Rx.Reach
import IonicTxrx.Rx.Dma
import IonicTxrx.Rx.RefCount
import IonicTxrx.Rx.Copybreak
import IonicTxrx.Rx.Doorbell
import IonicTxrx.Rx.Napi
import IonicTxrx.Rx.Account
import IonicTxrx.Napi
